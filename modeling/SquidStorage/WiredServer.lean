/-
The server with its datanodes behind byte streams.

`ReplicationManager` sends its writes to the datanodes one after the other, each as a call on the
session, and reads a file from the holders in turn.  Here the sessions are the byte streams of
`NodeLink` and the datanodes have disks.  Two steps lead up to the clients' view:

* `wired_refines_live` — the calls over the streams are the answers of `LiveSystem`;
* `cluster_refines_files` — for every sequence of requests and of datanodes that are lost, the
  clients get the replies of one map of files, as long as a quorum of datanodes is left.
-/
import SquidStorage.FileServer

open BigEndian LastWrite

namespace Squid

/-! ### The loops over sessions -/

/-- The sessions with the datanodes, by their names. -/
abbrev NodeLinks : Type := Bytes → NodeLink

/-- The loop of a write over datanodes: the live ones are called, and counted, and those that ACK
are collected.  A call that does not return leaves the loop hanging. -/
def fanOutWire (r : NodeRpc) :
    List (Bytes × SessionId) → NodeLinks → Option (NodeLinks × ℕ × List (Bytes × SessionId))
  | [], links => some (links, 0, [])
  | (name, session) :: targets, links =>
    if !(links name).ours.alive then fanOutWire r targets links
    else
      let called := (links name).answer r
      called.1.bind fun answer =>
        (fanOutWire r targets (Function.update links name called.2)).map fun rest =>
          (rest.1, rest.2.1 + 1,
            if answer.isAck then (name, session) :: rest.2.2 else rest.2.2)

/-- The loop of `getFileFromDataNode` over the live holders. -/
def readWire (expectedVersion : Int32) (filePath : Bytes) :
    List (Bytes × SessionId) → NodeLinks → Option (Option Bytes × NodeLinks)
  | [], links => some (none, links)
  | (name, _) :: holders, links =>
    let called := (links name).answer (.rpc (.readFile filePath))
    let links := Function.update links name called.2
    called.1.bind fun answer =>
      if !answer.isAck then readWire expectedVersion filePath holders links
      else if expectedVersion < 0 ∨ expectedVersion ≤ answer.version then
        some (some answer.data, links)
      else if holders ≠ [] then readWire expectedVersion filePath holders links
      else some (none, links)

/-- The server's end of a session is no longer alive. -/
def NodeLink.close (l : NodeLink) : NodeLink := { l with ours := { l.ours with alive := false } }

/-! ### The server -/

structure WiredServer where
  rm : ReplicationManager
  links : NodeLinks

namespace WiredServer

/-- `ReplicationManager::propagateCreateFile`, with the reply of `handleClientRequest`. -/
def createFile (w : WiredServer) (p : Bytes) (v : Int32) (d : Bytes) :
    Option ((Message × Bytes) × WiredServer) :=
  (fanOutWire (.rpc (.createFile p v d)) w.rm.dataNodeEndpointMap.toList w.links).bind
    fun (links, _, ackedNodes) =>
      if ackedNodes.length < w.rm.quorum then
        (fanOutWire (.rpc (.deleteFile p)) ackedNodes links).map fun (links, _) =>
          (((Response.ack false).message, []), { w with links })
      else some (((Response.ack true).message, []),
        { rm := w.rm.commitCreate p v ackedNodes, links })

/-- `ReplicationManager::getFileFromDataNode`, with the reply. -/
def readFile (w : WiredServer) (p : Bytes) : Option ((Message × Bytes) × WiredServer) :=
  let holders := (w.rm.holders p).toList.filter fun h => (w.links h.1).ours.alive
  (readWire (w.rm.getKnownVersion p) p holders w.links).map fun (data, links) =>
    (match data with
      | none => ((Response.ack false).message, [])
      | some data => ((Response.version true (w.rm.getKnownVersion p)).message, data),
      { w with links })

/-- The version that `propagateUpdateFile` assigns. -/
def newVersion (w : WiredServer) (p : Bytes) (clientSeenVersion : Int32) : Int32 :=
  w.rm.persistedVersionMap[p]?.getD clientSeenVersion + 1

/-- `ReplicationManager::propagateUpdateFile`, with the reply. -/
def updateFile (w : WiredServer) (p : Bytes) (seen : Int32) (d : Bytes) :
    Option ((Message × Bytes) × WiredServer) :=
  let newVersion := w.newVersion p seen
  let datanodes := (w.rm.holders p).toList
  (fanOutWire (.rpc (.updateFile p newVersion d)) datanodes w.links).map
    fun (links, _, ackedNodes) =>
      let committed := min w.rm.quorum datanodes.length ≤ ackedNodes.length
      ((if committed ∧ 0 ≤ newVersion then (Response.version true newVersion).message
          else (Response.ack false).message, []),
        { rm := if committed then w.rm.commitUpdate p newVersion else w.rm, links })

/-- `ReplicationManager::propagateDeleteFile`, with the reply. -/
def deleteFile (w : WiredServer) (p : Bytes) : Option ((Message × Bytes) × WiredServer) :=
  (fanOutWire (.rpc (.deleteFile p)) (w.rm.holders p).toList w.links).map
    fun (links, total, ackedNodes) =>
      (((Response.ack true).message, []),
        { rm := if 0 < total ∧ ackedNodes.length < min w.rm.quorum total then w.rm
            else w.rm.commitDelete p
          links })

def serve (w : WiredServer) : FileRequest → Option ((Message × Bytes) × WiredServer)
  | .createFile p v d => w.createFile p v d
  | .readFile p => w.readFile p
  | .updateFile p seen d => w.updateFile p seen d
  | .deleteFile p => w.deleteFile p

/-- The connection to a datanode is lost. -/
def lose (w : WiredServer) (name : Bytes) : WiredServer :=
  { w with links := Function.update w.links name (w.links name).close }

def step (w : WiredServer) : ServerInput → Option (Message × Bytes) × WiredServer
  | .request _ r =>
    match w.serve r with
    | none => (none, w)
    | some (reply, w) => (some reply, w)
  | .lose name => (none, w.lose name)

end WiredServer

/-! ### The sessions stand for the copies -/

/-- The live sessions are those of the datanodes that are connected, and each of these stores its
copies. -/
structure Linked (disks : Bytes → Disk) (up : Bytes → Bool) (links : NodeLinks)
    (nodes : DataNodes) : Prop where
  alive : ∀ n, (links n).ours.alive = up n
  stands : ∀ n, up n = true →
    ∃ store, (links n).Stands (disks n) store ∧ ∀ p, nodes n p = store[p]?

namespace Linked

variable {disks : Bytes → Disk} {up : Bytes → Bool} {links : NodeLinks} {nodes nodes' : DataNodes}

theorem congr (h : Linked disks up links nodes)
    (hnodes : ∀ n, up n = true → ∀ p, nodes' n p = nodes n p) : Linked disks up links nodes' where
  alive := h.alive
  stands n hup := by
    obtain ⟨store, hstands, hstore⟩ := h.stands n hup
    exact ⟨store, hstands, fun p => (hnodes n hup p).trans (hstore p)⟩

/-- **One call** on the session of a datanode that is connected. -/
theorem call (h : Linked disks up links nodes) {name : Bytes} (hup : up name = true) {r : NodeRpc}
    (hcarried : ∀ store : StrMap StoredFile, (∀ p, nodes name p = store[p]?) →
      Carried (disks name) store r) :
    ∃ store : StrMap StoredFile, (∀ p, nodes name p = store[p]?) ∧
      ((links name).answer r).1 = (storeStep store r).1 ∧
      Linked disks up (Function.update links name ((links name).answer r).2)
        fun n p => if n = name then (storeStep store r).2[p]? else nodes n p := by
  obtain ⟨store, hstands, hstore⟩ := h.stands name hup
  have hrefines := NodeLink.refines_store (disks name)
  have hkeeps := hrefines.keeps _ _ r hstands (hcarried store hstore)
  refine ⟨store, hstore, hrefines.answer _ _ r hstands (hcarried store hstore),
    fun n => ?_, fun n hn => ?_⟩
  · by_cases hname : n = name
    · subst hname
      rw [Function.update_self, hkeeps.ready.clientAlive, hup]
    · rw [Function.update_of_ne hname]
      exact h.alive n
  · by_cases hname : n = name
    · subst hname
      rw [Function.update_self]
      exact ⟨_, hkeeps, fun p => by rw [if_pos rfl]⟩
    · rw [Function.update_of_ne hname]
      obtain ⟨store', hstands', hstore'⟩ := h.stands n hn
      exact ⟨store', hstands', fun p => by rw [if_neg hname]; exact hstore' p⟩

/-- **A write over datanodes**: every one that is connected is called, and ACKs. -/
theorem fanOutWire (h : Linked disks up links nodes) {r : NodeRpc} {p : Bytes}
    {file : Option StoredFile}
    (hstep : ∀ store : StrMap StoredFile, ∃ answer, (storeStep store r).1 = some answer ∧
      answer.isAck = true ∧ ∀ q, (storeStep store r).2[q]? = if q = p then file else store[q]?)
    (hcarried : ∀ n, up n = true → ∀ store, Carried (disks n) store r)
    (targets : List (Bytes × SessionId)) :
    ∃ links', Squid.fanOutWire r targets links
        = some (links', (targets.filter fun t => up t.1).length, targets.filter fun t => up t.1) ∧
      Linked disks up links' fun n q =>
        if q = p ∧ up n = true ∧ n ∈ targets.map Prod.fst then file else nodes n q := by
  induction targets generalizing links nodes with
  | nil => exact ⟨links, rfl, h.congr fun n _ q => by simp⟩
  | cons target targets ih =>
    obtain ⟨name, session⟩ := target
    rw [Squid.fanOutWire, h.alive]
    cases hup : up name with
    | false =>
      obtain ⟨links', hloop, hlinked⟩ := ih h
      refine ⟨links', ?_, hlinked.congr fun n hn q => ?_⟩
      · simpa [hup] using hloop
      · have hne : n ≠ name := by
          rintro rfl
          simp [hup] at hn
        grind
    | true =>
      obtain ⟨store, hstore, hanswer, hcalled⟩ := h.call hup fun store _ => hcarried name hup store
      obtain ⟨answer, hsome, hack, hafter⟩ := hstep store
      obtain ⟨links', hloop, hlinked⟩ := ih hcalled
      refine ⟨links', ?_, hlinked.congr fun n hn q => ?_⟩
      · simp [hanswer, hsome, hloop, hack, hup]
      · simp only [hafter, ← hstore]
        grind

/-- A create or an update over datanodes is the loop of `Replication.lean`. -/
theorem write (h : Linked disks up links nodes) {r : NodeRpc} {p : Bytes} (file : StoredFile)
    (hr : r = .rpc (.createFile p file.version file.bytes) ∨
      r = .rpc (.updateFile p file.version file.bytes))
    (hcarried : ∀ n, up n = true → ∀ store, Carried (disks n) store r)
    (targets : List (Bytes × SessionId)) :
    ∃ links' total, Squid.fanOutWire r targets links
        = some (links', total, (fanOut (answersOf up).write p file targets nodes).2) ∧
      Linked disks up links' (fanOut (answersOf up).write p file targets nodes).1 := by
  have hstep : ∀ store : StrMap StoredFile, ∃ answer, (storeStep store r).1 = some answer ∧
      answer.isAck = true ∧
        ∀ q, (storeStep store r).2[q]? = if q = p then some file else store[q]? := by
    intro store
    have hinsert : ∀ q, (store.insert p file)[q]? = if q = p then some file else store[q]? := by
      intro q
      rw [Std.ExtTreeMap.getElem?_insert]
      simp only [Std.LawfulEqCmp.compare_eq_iff_eq, @eq_comm Bytes q p]
    rcases hr with rfl | rfl
    · exact ⟨_, rfl, rfl, hinsert⟩
    · exact ⟨_, rfl, rfl, hinsert⟩
  obtain ⟨links', hloop, hlinked⟩ := h.fanOutWire hstep hcarried targets
  rw [← ackedNodes_answersOf up p file targets nodes] at hloop
  exact ⟨links', _, hloop, hlinked.congr fun n _ q => fanOut_answersOf up p file targets nodes n q⟩

/-- A delete over datanodes. -/
theorem delete (h : Linked disks up links nodes) {p : Bytes}
    (hcarried : ∀ n, up n = true → ∀ store, Carried (disks n) store (.rpc (.deleteFile p)))
    (targets : List (Bytes × SessionId)) :
    ∃ links', Squid.fanOutWire (.rpc (.deleteFile p)) targets links
        = some (links', (targets.filter fun t => up t.1).length, targets.filter fun t => up t.1) ∧
      Linked disks up links' (deleteAll (answersOf up).delete p targets nodes) := by
  have hstep : ∀ store : StrMap StoredFile, ∃ answer,
      (storeStep store (.rpc (.deleteFile p))).1 = some answer ∧ answer.isAck = true ∧
        ∀ q, (storeStep store (.rpc (.deleteFile p))).2[q]?
          = if q = p then none else store[q]? := by
    intro store
    refine ⟨_, rfl, rfl, fun q => ?_⟩
    show (store.erase p)[q]? = _
    rw [Std.ExtTreeMap.getElem?_erase]
    simp only [Std.LawfulEqCmp.compare_eq_iff_eq, @eq_comm Bytes q p]
  obtain ⟨links', hloop, hlinked⟩ := h.fanOutWire hstep hcarried targets
  exact ⟨links', hloop, hlinked.congr fun n _ q => deleteAll_answersOf up p targets nodes n q⟩

/-- A read from holders that are connected and have the file. -/
theorem read (h : Linked disks up links nodes) {p : Bytes} (hp : Sendable p)
    (expectedVersion : Int32) (holders : List (Bytes × SessionId))
    (hholders : ∀ holder ∈ holders, up holder.1 = true ∧ ∃ file, nodes holder.1 p = some file ∧
      file.bytes.length ≤ fileTransferMaxSize) :
    ∃ links', readWire expectedVersion p holders links
        = some (holders.findSome? (fun holder => (nodes holder.1 p).bind fun file =>
            if expectedVersion < 0 ∨ expectedVersion ≤ file.version then some file.bytes else none),
          links') ∧ Linked disks up links' nodes := by
  induction holders generalizing links with
  | nil => exact ⟨links, rfl, h⟩
  | cons holder holders ih =>
    obtain ⟨name, session⟩ := holder
    obtain ⟨hup, file, hfile, hsize⟩ := hholders (name, session) List.mem_cons_self
    obtain ⟨store, hstore, hanswer, hcalled⟩ := h.call (r := .rpc (.readFile p)) hup
      fun store hstore => ⟨hp, file, (hstore p).symm.trans hfile, hsize⟩
    have hread : (storeStep store (.rpc (.readFile p))).1
        = some { isAck := true, version := file.version, data := file.bytes } := by
      rw [storeStep, ← hstore, hfile]
      rfl
    have hsame : Linked disks up
        (Function.update links name ((links name).answer (.rpc (.readFile p))).2) nodes := by
      refine hcalled.congr fun n _ q => ?_
      split
      · rename_i hn
        rw [hn]
        exact hstore q
      · rfl
    obtain ⟨links', hloop, hlinked⟩ :=
      ih hsame fun holder hmem => hholders holder (List.mem_cons_of_mem _ hmem)
    simp only [readWire, hanswer, hread, Option.bind_some, Bool.not_true, Bool.false_eq_true,
      if_false, List.findSome?_cons, hfile]
    split
    · exact ⟨_, rfl, hsame⟩
    · -- the last holder ends the loop as an empty rest would
      by_cases hrest : holders = []
      · subst hrest
        exact ⟨_, rfl, hsame⟩
      · rw [if_pos hrest]
        exact ⟨links', hloop, hlinked⟩

end Linked

/-! ### From the streams to the answers -/

/-- The sessions are those of the datanodes, and the rest of the state is the same. -/
structure Wired (disks : Bytes → Disk) (w : WiredServer) (s : LiveSystem) : Prop where
  rm : w.rm = s.sys.rm
  linked : Linked disks s.up w.links s.sys.nodes

/-- The requests whose calls the datanodes carry through. -/
def LiveSystem.Carries (disks : Bytes → Disk) (s : LiveSystem) : ServerInput → Prop
  | .request _ (.createFile p _ d) | .request _ (.updateFile p _ d) =>
    Sendable p ∧ d.length ≤ fileTransferMaxSize ∧ ∀ n, s.up n = true →
      (disks n).openOutput p = .opened ∧ (disks n).removeError p = none
  | .request _ (.readFile p) => Sendable p ∧ ∀ n, s.up n = true → n ∈ s.sys.rm.holders p →
      ∃ file, s.sys.nodes n p = some file ∧ file.bytes.length ≤ fileTransferMaxSize
  | .request _ (.deleteFile p) =>
    Sendable p ∧ ∀ n, s.up n = true → (disks n).removeError p = none
  | .lose _ => True

namespace Wired

variable {disks : Bytes → Disk} {w : WiredServer} {s : LiveSystem}

theorem createFile (h : Wired disks w s) (client : Bytes) {p : Bytes} {v : Int32} {d : Bytes}
    (hcarries : s.Carries disks (.request client (.createFile p v d))) :
    ∃ w', w.createFile p v d
        = some ((s.sys.respond client (answersOf s.up) (.createFile p v d)).2, w')
      ∧ Wired disks w'
        { s with sys := (s.sys.respond client (answersOf s.up) (.createFile p v d)).1 } := by
  obtain ⟨hp, hsize, hdisks⟩ := hcarries
  obtain ⟨links, total, hloop, hlinked⟩ := h.linked.write ⟨d, v⟩ (Or.inl rfl)
    (fun n hup _ => ⟨hp, hsize, (hdisks n hup).1⟩) s.sys.rm.dataNodeEndpointMap.toList
  have hreceived : (!(answersOf s.up).received) = false := rfl
  simp only [WiredServer.createFile, h.rm, hloop, Option.bind_some, System.respond, hreceived,
    Bool.false_eq_true, if_false, System.propagateCreateFile]
  split
  · -- the quorum is missed, and the datanodes that ACKed delete the file again
    obtain ⟨links', hdelete, hlinked'⟩ := hlinked.delete
      (fun n hup _ => ⟨hp, (hdisks n hup).2⟩)
      (fanOut (answersOf s.up).write p ⟨d, v⟩ s.sys.rm.dataNodeEndpointMap.toList s.sys.nodes).2
    rw [hdelete]
    exact ⟨_, rfl, rfl, hlinked'⟩
  · exact ⟨_, rfl, rfl, hlinked⟩

theorem updateFile (h : Wired disks w s) (client : Bytes) {p : Bytes} {seen : Int32} {d : Bytes}
    (hcarries : s.Carries disks (.request client (.updateFile p seen d))) :
    ∃ w', w.updateFile p seen d
        = some ((s.sys.respond client (answersOf s.up) (.updateFile p seen d)).2, w')
      ∧ Wired disks w'
        { s with sys := (s.sys.respond client (answersOf s.up) (.updateFile p seen d)).1 } := by
  obtain ⟨hp, hsize, hdisks⟩ := hcarries
  obtain ⟨links, total, hloop, hlinked⟩ := h.linked.write
    ⟨d, s.sys.newVersion p seen⟩ (Or.inr rfl)
    (fun n hup _ => ⟨hp, hsize, (hdisks n hup).1⟩) (s.sys.rm.holders p).toList
  have hreceived : (!(answersOf s.up).received) = false := rfl
  have hversion : w.newVersion p seen = s.sys.newVersion p seen := by
    rw [WiredServer.newVersion, h.rm, System.newVersion]
  simp only [WiredServer.updateFile, hversion, h.rm, hloop, Option.map_some, System.respond,
    hreceived, Bool.false_eq_true, if_false]
  by_cases hcommit : s.sys.updateCommits p seen d (answersOf s.up).write = true
  · obtain ⟨hreply, hsys⟩ := System.update_of_commits s.sys (answersOf s.up).write p seen client d
      hcommit
    have hcommitted := of_decide_eq_true hcommit
    simp only [hcommitted, true_and, if_true, hreply, hsys]
    split
    · exact ⟨_, rfl, rfl, hlinked⟩
    · exact ⟨_, rfl, rfl, hlinked⟩
  · obtain ⟨hreply, hsys⟩ := System.update_of_rejected s.sys (answersOf s.up).write p seen client d
      hcommit
    have hrejected := (decide_eq_true_iff (p := _ ≤ _)).not.mp hcommit
    have hnegative : ¬ (0 : Int32) ≤ -1 := by decide
    simp only [hrejected, false_and, if_false, hreply, hnegative, hsys]
    exact ⟨_, rfl, rfl, hlinked⟩

theorem deleteFile (h : Wired disks w s) (client : Bytes) {p : Bytes}
    (hcarries : s.Carries disks (.request client (.deleteFile p))) :
    ∃ w', w.deleteFile p = some ((s.sys.respond client (answersOf s.up) (.deleteFile p)).2, w')
      ∧ Wired disks w'
        { s with sys := (s.sys.respond client (answersOf s.up) (.deleteFile p)).1 } := by
  obtain ⟨hp, hdisks⟩ := hcarries
  obtain ⟨links, hloop, hlinked⟩ := h.linked.delete (fun n hup _ => ⟨hp, hdisks n hup⟩)
    (s.sys.rm.holders p).toList
  have hall := System.delete_of_commits (deleteCommits_answersOf s.sys s.up p) client
  simp only [WiredServer.deleteFile, h.rm, hloop, Option.map_some, System.respond, hall]
  refine ⟨_, rfl, ?_, hlinked⟩
  exact if_neg fun hfew => absurd hfew.2 (Nat.not_lt.mpr (min_le_right _ _))

theorem readFile (h : Wired disks w s) (client : Bytes) {p : Bytes}
    (hcarries : s.Carries disks (.request client (.readFile p))) :
    ∃ w', w.readFile p = some ((s.sys.respond client (answersOf s.up) (.readFile p)).2, w')
      ∧ Wired disks w'
        { s with sys := (s.sys.respond client (answersOf s.up) (.readFile p)).1 } := by
  obtain ⟨hp, hcopies⟩ := hcarries
  set holders := (s.sys.rm.holders p).toList.filter fun h => s.up h.1 with hholders
  have hup : ∀ holder ∈ holders, s.up holder.1 = true := fun _ hmem => (List.mem_filter.mp hmem).2
  obtain ⟨links, hloop, hlinked⟩ := h.linked.read hp (s.sys.rm.getKnownVersion p)
    holders (fun holder hmem => ⟨hup holder hmem, hcopies _ (hup holder hmem)
      (mem_names.mp (List.mem_map_of_mem (List.mem_filter.mp hmem).1))⟩)
  -- the answers of the datanodes that are connected are those of their disks
  set found := holders.findSome? fun holder => (s.sys.nodes holder.1 p).bind fun file =>
    if s.sys.rm.getKnownVersion p < 0 ∨ s.sys.rm.getKnownVersion p ≤ file.version
    then some file.bytes else none with hfound
  have hread : s.sys.getFileFromDataNode (answersOf s.up).read p = found := by
    have hlive : ∀ holder : Bytes × SessionId,
        decide ((answersOf s.up).read holder.1 holder.2 ≠ .dead) = s.up holder.1 := by
      intro holder
      cases hup : s.up holder.1 <;> simp [answersOf, hup]
    rw [System.getFileFromDataNode, hfound]
    simp only [hlive, ← hholders]
    rw [← List.head?_filterMap, ← List.head?_filterMap]
    refine congrArg List.head? (List.filterMap_congr fun holder hmem => ?_)
    rw [if_pos (by simp [answersOf, hup holder hmem])]
    cases s.sys.nodes holder.1 p with
    | none => rfl
    | some file => rfl
  simp only [WiredServer.readFile, h.rm, h.linked.alive, ← hholders, hloop, Option.map_some,
    System.respond, hread]
  cases found with
  | none => exact ⟨_, rfl, rfl, hlinked⟩
  | some data => exact ⟨_, rfl, rfl, hlinked⟩

theorem lose (h : Wired disks w s) (name : Bytes) :
    Wired disks (w.lose name) { s with up := Function.update s.up name false } where
  rm := h.rm
  linked := by
    constructor
    · intro n
      by_cases hn : n = name
      · subst hn
        simp [WiredServer.lose, NodeLink.close]
      · simp [WiredServer.lose, hn, h.linked.alive]
    · intro n hup
      have hn : n ≠ name := by
        rintro rfl
        simp at hup
      simp only [Function.update_of_ne hn] at hup
      simp only [WiredServer.lose, Function.update_of_ne hn]
      exact h.linked.stands n hup

end Wired

/-- **The calls over the streams are the answers of the datanodes.** -/
theorem wired_refines_live (disks : Bytes → Disk) :
    Responders.Refines WiredServer.step LiveSystem.step (Wired disks)
      (LiveSystem.Carries disks) := by
  have hstep : ∀ w s input, Wired disks w s → s.Carries disks input →
      (w.step input).1 = (s.step input).1 ∧ Wired disks (w.step input).2 (s.step input).2 := by
    intro w s input h hcarries
    cases input with
    | lose name => exact ⟨rfl, h.lose name⟩
    | request client r =>
      obtain ⟨w', hserve, hwired⟩ : ∃ w', w.serve r
          = some ((s.sys.respond client (answersOf s.up) r.rpc).2, w') ∧
            Wired disks w' { s with sys := (s.sys.respond client (answersOf s.up) r.rpc).1 } := by
        cases r with
        | createFile p v d => exact h.createFile client hcarries
        | readFile p => exact h.readFile client hcarries
        | updateFile p seen d => exact h.updateFile client hcarries
        | deleteFile p => exact h.deleteFile client hcarries
      rw [WiredServer.step, hserve]
      exact ⟨rfl, hwired⟩
  exact ⟨fun w s input h hcarries => (hstep w s input h hcarries).1,
    fun w s input h hcarries => (hstep w s input h hcarries).2⟩

/-! ### From the streams to the clients -/

/-- The requests whose calls the datanodes carry through, in terms of the files. -/
def FileServer.Fits (disks : Bytes → Disk) (t : FileServer) : ServerInput → Prop
  | .request _ (.createFile p _ d) | .request _ (.updateFile p _ d) =>
    Sendable p ∧ d.length ≤ fileTransferMaxSize ∧ ∀ n ∈ t.live,
      (disks n).openOutput p = .opened ∧ (disks n).removeError p = none
  | .request _ (.readFile p) =>
    Sendable p ∧ ∀ file ∈ t.files[p]?, file.bytes.length ≤ fileTransferMaxSize
  | .request _ (.deleteFile p) => Sendable p ∧ ∀ n ∈ t.live, (disks n).removeError p = none
  | .lose _ => True

theorem Mirrors.carries {quorum : ℕ} {s : LiveSystem} {t : FileServer} (h : Mirrors quorum s t)
    {disks : Bytes → Disk} {input : ServerInput} (hfits : t.Fits disks input) :
    s.Carries disks input := by
  have hlive : ∀ n, s.up n = true → n ∈ t.live := fun n hup =>
    h.mem_live.mpr ⟨h.connected n hup, hup⟩
  cases input with
  | lose name => trivial
  | request client r =>
    cases r with
    | createFile p v d | updateFile p v d =>
      exact ⟨hfits.1, hfits.2.1, fun n hup => hfits.2.2 n (hlive n hup)⟩
    | deleteFile p => exact ⟨hfits.1, fun n hup => hfits.2 n (hlive n hup)⟩
    | readFile p =>
      refine ⟨hfits.1, fun n hup hholder => ?_⟩
      rw [h.copies n (hlive n hup)]
      cases hfile : t.files[p]? with
      | none =>
        rw [h.unheld p (no_entry_iff.mp hfile)] at hholder
        simp at hholder
      | some file => exact ⟨file, rfl, hfits.2 file hfile⟩

/-- **Streams, disks and replication together** refine the map of files. -/
theorem wired_refines_files (quorum : ℕ) (disks : Bytes → Disk) :
    Responders.Refines WiredServer.step FileServer.step
      (Relation.Comp (Wired disks) (Mirrors quorum))
      fun t input => t.Meant quorum input ∧ t.Fits disks input :=
  (wired_refines_live disks).comp ((liveSystem_refines quorum).mono fun _ _ h => h.1)
    fun _ _ _ hmirrors hmeant => hmirrors.carries hmeant.2

/-- A server that has no files yet, with its datanodes registered. -/
def WiredServer.start (replicationFactor : ℕ) (endpoints : StrMap SessionId) (links : NodeLinks) :
    WiredServer where
  rm := { ReplicationManager.start replicationFactor none with dataNodeEndpointMap := endpoints }
  links := links

theorem related_start {replicationFactor : ℕ} {endpoints : StrMap SessionId} {links : NodeLinks}
    (hquorum : replicationFactor / 2 + 1 ≤ endpoints.size)
    (halive : ∀ n, (links n).ours.alive = endpoints.contains n)
    (hnew : ∀ n ∈ endpoints, Ready (links n).ours (links n).theirs ∧ (links n).node.Fresh ∧
      ∀ p, StoragePath p → (links n).node.disk.resolvePath p = p) :
    Relation.Comp (Wired fun n => (links n).node.disk) (Mirrors (replicationFactor / 2 + 1))
      (.start replicationFactor endpoints links) ⟨∅, endpoints.keys⟩ := by
  refine ⟨.start replicationFactor endpoints,
    ⟨rfl, halive, fun n hup => ⟨∅, ?_, by simp [LiveSystem.start]⟩⟩, .start hquorum⟩
  obtain ⟨hready, hfresh, hresolves⟩ := hnew n (Std.ExtTreeMap.contains_iff_mem.mp hup)
  exact ⟨hready, .fresh hfresh, ⟨rfl, rfl, rfl⟩, hresolves, by simp⟩

/-- **Replication does not show.**  A server starts with at least a quorum of datanodes, each on a
new session and with nothing stored.  Whatever requests the clients make and whichever datanodes
are lost, as long as a quorum stays connected and the datanodes carry the calls through, every
client gets the replies of one map of files. -/
theorem cluster_refines_files (replicationFactor : ℕ) (endpoints : StrMap SessionId)
    (links : NodeLinks) (hquorum : replicationFactor / 2 + 1 ≤ endpoints.size)
    (halive : ∀ n, (links n).ours.alive = endpoints.contains n)
    (hnew : ∀ n ∈ endpoints, Ready (links n).ours (links n).theirs ∧ (links n).node.Fresh ∧
      ∀ p, StoragePath p → (links n).node.disk.resolvePath p = p)
    (inputs : List ServerInput)
    (hwithin : Responders.Within FileServer.step
      (fun t input => t.Meant (replicationFactor / 2 + 1) input ∧
        t.Fits (fun n => (links n).node.disk) input) ⟨∅, endpoints.keys⟩ inputs) :
    Responders.answers WiredServer.step (.start replicationFactor endpoints links) inputs
      = Responders.answers FileServer.step ⟨∅, endpoints.keys⟩ inputs :=
  (wired_refines_files _ _).answers_eq (related_start hquorum halive hnew) hwithin

/-- Three datanodes, of which one is lost between a write and a read. -/
theorem cluster_refines_files_one_lost :
    let f : Bytes := [102]
    let endpoints : StrMap SessionId := ((∅ : StrMap SessionId).insert [1] 0).insert [2] 1
      |>.insert [3] 2
    let links : NodeLinks := fun n => if endpoints.contains n then freshLink else freshLink.close
    let inputs : List ServerInput := [.request [99] (.createFile f 0 [1, 2]), .lose [1],
      .request [99] (.updateFile f 0 [3]), .request [98] (.readFile f),
      .request [98] (.deleteFile f), .request [99] (.readFile f)]
    (Responders.answers WiredServer.step (.start 2 endpoints links) inputs)[3]?
        = some (some ((Response.version true 1).message, [3])) ∧
      (Responders.answers WiredServer.step (.start 2 endpoints links) inputs)[5]?
        = some (some ((Response.ack false).message, [])) := by
  intro f endpoints links inputs
  have hf : Sendable f := ⟨⟨by decide, by decide, by decide⟩, by decide⟩
  have hdisk : ∀ n, (links n).node.disk = {} := by
    intro n
    show (if _ then freshLink else freshLink.close).node.disk = _
    split <;> rfl
  have hdisks : ∀ n, (links n).node.disk.openOutput f = .opened ∧
      (links n).node.disk.removeError f = none := fun n => by rw [hdisk]; exact ⟨rfl, rfl⟩
  have halive : ∀ n, (links n).ours.alive = endpoints.contains n := by
    intro n
    show (if _ then freshLink else freshLink.close).ours.alive = _
    cases hn : endpoints.contains n <;> simp [freshLink, NodeLink.close]
  have hnew : ∀ n ∈ endpoints, Ready (links n).ours (links n).theirs ∧ (links n).node.Fresh ∧
      ∀ p, StoragePath p → (links n).node.disk.resolvePath p = p := by
    intro n hn
    have hlink : links n = freshLink := if_pos (Std.ExtTreeMap.contains_iff_mem.mpr hn)
    rw [hlink]
    exact ⟨ready_fresh, ⟨rfl, by simp [freshLink, freshNode]⟩, fun _ _ => rfl⟩
  have hwithin : Responders.Within FileServer.step
      (fun t input => t.Meant (2 / 2 + 1) input ∧
        t.Fits (fun n => (links n).node.disk) input) ⟨∅, endpoints.keys⟩ inputs := by
    refine ⟨⟨trivial, hf, by decide, fun n _ => hdisks n⟩, ⟨?_, trivial⟩,
      ⟨?_, hf, by decide, fun n _ => hdisks n⟩, ⟨trivial, hf, ?_⟩,
      ⟨trivial, hf, fun n _ => (hdisks n).2⟩, ⟨trivial, hf, ?_⟩, trivial⟩
    · show _ ≤ List.length _
      decide
    · show f ∈ FileServer.files _
      decide
    · decide
    · decide
  rw [cluster_refines_files 2 endpoints links (by decide) halive hnew inputs hwithin]
  exact ⟨rfl, rfl⟩

end Squid
