/-
The server and its datanodes, as one map of files.

A client's request goes to the replication manager, which sends it on to the datanodes that are
connected.  As long as a quorum of them stays connected, the client cannot tell: it gets the
replies of one map from paths to files, whichever datanodes are lost in between.

* `System.respond` — the requests of a client and the replies to them;
* `Mirrors` — every datanode that is connected has every file;
* `Mirrors.create`, `Mirrors.update`, `Mirrors.delete`, `Mirrors.lose` — the steps;
* `liveSystem_refines` — the server refines the map.
-/
import SquidStorage.ClientLink
import SquidStorage.WriteReplies
import SquidStorage.NodeStore

open BigEndian LastWrite

namespace Squid

/-! ### Requests of a client -/

/-- What a request meets on the server: the clock, the datanodes' replies to a
`buildFileLockMap`, whether the file of an upload came through, and the answers of the datanodes
that the request is passed on to. -/
structure Circumstances where
  now : ℕ := 0
  replies : List (StrMap Int32) := []
  received : Bool := true
  write : Bytes → SessionId → WriteAnswer := fun _ _ => .acked
  rollback : Bytes → SessionId → DeleteAnswer := fun _ _ => .acked
  read : Bytes → SessionId → ReadAnswer := fun _ _ => .served
  delete : Bytes → SessionId → DeleteAnswer := fun _ _ => .acked

/-- `Server::handleClientRequest` for a request of `client`: the server after it, and what the call
of the client returns. -/
def System.respond (sys : System) (client : Bytes) (c : Circumstances) :
    Rpc → System × (Message × Bytes)
  | .createFile path version data =>
    if !c.received then (sys, (Response.ack false).message, [])
    else
      let created := sys.propagateCreateFile c.write c.rollback path version client data
      (created.2.1, (Response.ack created.1).message, [])
  | .readFile path =>
    match sys.getFileFromDataNode c.read path with
    | none => (sys, (Response.ack false).message, [])
    | some data => (sys, (Response.version true (sys.rm.getKnownVersion path)).message, data)
  | .updateFile path version data =>
    if !c.received then (sys, (Response.ack false).message, [])
    else
      let updated := sys.propagateUpdateFile c.write path version client data
      if 0 ≤ updated.1 then (updated.2.1, (Response.version true updated.1).message, [])
      else (updated.2.1, (Response.ack false).message, [])
  | .deleteFile path =>
    ((sys.propagateDeleteFile c.delete path client).1, (Response.ack true).message, [])
  | .acquireLock path =>
    let acquired := sys.rm.acquireLock path client c.now c.replies
    ({ sys with rm := acquired.2 }, (Response.ack acquired.1).message, [])
  | .releaseLock path =>
    let released := sys.rm.releaseLock path c.replies
    ({ sys with rm := released.2 }, (Response.ack released.1).message, [])
  | .heartbeat => (sys, (Response.ack true).message, [])

/-! ### Datanodes that are lost one after the other -/

/-- The requests on files. -/
inductive FileRequest where
  | createFile (filePath : Bytes) (version : Int32) (fileData : Bytes)
  | readFile (filePath : Bytes)
  | updateFile (filePath : Bytes) (version : Int32) (fileData : Bytes)
  | deleteFile (filePath : Bytes)
deriving DecidableEq, Repr

def FileRequest.rpc : FileRequest → Rpc
  | createFile p v d => .createFile p v d
  | readFile p => .readFile p
  | updateFile p v d => .updateFile p v d
  | deleteFile p => .deleteFile p

/-- What reaches the server: requests of clients, and connections to datanodes that are lost. -/
inductive ServerInput where
  | request (client : Bytes) (r : FileRequest)
  | lose (name : Bytes)
deriving DecidableEq, Repr

/-- The server, and which datanodes are connected. -/
structure LiveSystem where
  sys : System
  up : Bytes → Bool

/-- The answers of datanodes that carry out what reaches them. -/
def answersOf (up : Bytes → Bool) : Circumstances where
  write name _ := if up name then .acked else .dead
  rollback name _ := if up name then .acked else .dead
  read name _ := if up name then .served else .dead
  delete name _ := if up name then .acked else .dead

def LiveSystem.step (s : LiveSystem) : ServerInput → Option (Message × Bytes) × LiveSystem
  | .request client r =>
    let served := s.sys.respond client (answersOf s.up) r.rpc
    (some served.2, { s with sys := served.1 })
  | .lose name => (none, { s with up := Function.update s.up name false })

/-! ### One map of files -/

/-- The files, and the datanodes that are connected. -/
structure FileServer where
  files : StrMap StoredFile
  live : List Bytes

/-- What a client is replied, and the files afterwards. -/
def serveFiles (files : StrMap StoredFile) : FileRequest → (Message × Bytes) × StrMap StoredFile
  | .createFile p v d => (((Response.ack true).message, []), files.insert p ⟨d, v⟩)
  | .readFile p =>
    match files[p]? with
    | none => (((Response.ack false).message, []), files)
    | some file => (((Response.version true file.version).message, file.bytes), files)
  | .updateFile p seen d =>
    let v := (files[p]?.map StoredFile.version).getD seen + 1
    ((if 0 ≤ v then (Response.version true v).message else (Response.ack false).message, []),
      files.insert p ⟨d, v⟩)
  | .deleteFile p => (((Response.ack true).message, []), files.erase p)

def FileServer.step (t : FileServer) : ServerInput → Option (Message × Bytes) × FileServer
  | .request _ r =>
    let served := serveFiles t.files r
    (some served.1, { t with files := served.2 })
  | .lose name => (none, { t with live := t.live.filter (· ≠ name) })

/-- What the map is meant for: updates of files that are there, and losses that leave a quorum
connected. -/
def FileServer.Meant (quorum : ℕ) (t : FileServer) : ServerInput → Prop
  | .request _ (.updateFile p _ _) => p ∈ t.files
  | .request _ _ => True
  | .lose name => quorum ≤ (t.live.filter (· ≠ name)).length

/-! ### Loops over datanodes -/

/-- A write reaches the datanodes that are connected. -/
theorem fanOut_answersOf (up : Bytes → Bool) (p : Bytes) (file : StoredFile)
    (targets : List (Bytes × SessionId)) (nodes : DataNodes) (n q : Bytes) :
    (fanOut (answersOf up).write p file targets nodes).1 n q
      = if q = p ∧ up n = true ∧ n ∈ targets.map Prod.fst then some file else nodes n q := by
  induction targets generalizing nodes with
  | nil => simp [fanOut]
  | cons target targets ih =>
    rw [fanOut, ih]
    cases hup : up target.1 <;> grind [storeAt, answersOf, WriteAnswer.effect]

theorem ackedNodes_answersOf (up : Bytes → Bool) (p : Bytes) (file : StoredFile)
    (targets : List (Bytes × SessionId)) (nodes : DataNodes) :
    (fanOut (answersOf up).write p file targets nodes).2
      = targets.filter fun node => up node.1 := by
  rw [fanOut_ackedNodes]
  refine List.filter_congr fun node _ => ?_
  cases hup : up node.1 <;> simp [answersOf, hup, WriteAnswer.acks]

/-- A delete reaches the datanodes that are connected. -/
theorem deleteAll_answersOf (up : Bytes → Bool) (p : Bytes) (targets : List (Bytes × SessionId))
    (nodes : DataNodes) (n q : Bytes) :
    deleteAll (answersOf up).delete p targets nodes n q
      = if q = p ∧ up n = true ∧ n ∈ targets.map Prod.fst then none else nodes n q := by
  induction targets generalizing nodes with
  | nil => simp [deleteAll]
  | cons target targets ih =>
    rw [deleteAll, ih]
    cases hup : up target.1 <;> grind [storeAt, answersOf, DeleteAnswer.deletes]

/-- Every holder that is asked ACKs. -/
theorem deleteCommits_answersOf (sys : System) (up : Bytes → Bool) (p : Bytes) :
    sys.deleteCommits p (answersOf up).delete = true := by
  have hacked : ∀ n session, (answersOf up).delete n session = .acked
      ↔ (answersOf up).delete n session ≠ .dead := by
    intro n session
    cases hup : up n <;> simp [answersOf, hup]
  simp only [System.deleteCommits, hacked, Bool.not_eq_true', Bool.and_eq_false_iff,
    decide_eq_false_iff_not]
  exact Or.inr (Nat.not_lt.mpr (min_le_right _ _))

theorem mem_names {m : StrMap SessionId} {n : Bytes} : n ∈ m.toList.map Prod.fst ↔ n ∈ m := by
  rw [Std.ExtTreeMap.map_fst_toList_eq_keys, Std.ExtTreeMap.mem_keys]

/-! ### The relation -/

/-- Every datanode that is connected has every file, and is registered as its holder. -/
structure Mirrors (quorum : ℕ) (s : LiveSystem) (t : FileServer) : Prop where
  quorum_eq : s.sys.rm.quorum = quorum
  live : t.live = (s.sys.rm.dataNodeEndpointMap.toList.map Prod.fst).filter s.up
  enough : quorum ≤ t.live.length
  connected : ∀ n, s.up n = true → n ∈ s.sys.rm.dataNodeEndpointMap
  known : ∀ p, ∀ n ∈ s.sys.rm.holders p, n ∈ s.sys.rm.dataNodeEndpointMap
  held : ∀ p ∈ t.files, ∀ n ∈ t.live, n ∈ s.sys.rm.holders p
  unheld : ∀ p, p ∉ t.files → s.sys.rm.holders p = ∅
  copies : ∀ n ∈ t.live, ∀ p, s.sys.nodes n p = t.files[p]?
  versions : s.sys.rm.persistedVersionMap = fileVersions t.files

namespace Mirrors

variable {quorum : ℕ} {s : LiveSystem} {t : FileServer}

theorem mem_live (h : Mirrors quorum s t) {n : Bytes} :
    n ∈ t.live ↔ n ∈ s.sys.rm.dataNodeEndpointMap ∧ s.up n = true := by
  rw [h.live, List.mem_filter, mem_names]

theorem nodup_live (h : Mirrors quorum s t) : t.live.Nodup := by
  rw [h.live, Std.ExtTreeMap.map_fst_toList_eq_keys]
  exact Std.ExtTreeMap.nodup_keys.filter _

/-- The quorum is at least one, so somebody is connected. -/
theorem exists_live (h : Mirrors quorum s t) : ∃ n, n ∈ t.live := by
  refine List.exists_mem_of_length_pos ?_
  have hquorum := h.quorum_eq
  have henough := h.enough
  rw [ReplicationManager.quorum] at hquorum
  omega

/-- The holders that are connected are the datanodes that are connected. -/
theorem up_holders (h : Mirrors quorum s t) {p n : Bytes} (hp : p ∈ t.files) :
    (n ∈ s.sys.rm.holders p ∧ s.up n = true) ↔ n ∈ t.live := by
  constructor
  · rintro ⟨hholder, hup⟩
    exact h.mem_live.mpr ⟨h.known p n hholder, hup⟩
  · intro hlive
    exact ⟨h.held p hp n hlive, (h.mem_live.mp hlive).2⟩

theorem length_filter_up (h : Mirrors quorum s t) {p : Bytes} (hp : p ∈ t.files) :
    quorum ≤ ((s.sys.rm.holders p).toList.filter fun node => s.up node.1).length := by
  refine h.enough.trans ?_
  rw [← List.length_map Prod.fst]
  refine (h.nodup_live.subperm fun n hn => ?_).length_le
  obtain ⟨hholder, hup⟩ := (h.up_holders hp).mpr hn
  obtain ⟨node, hnode, rfl⟩ := List.mem_map.mp (mem_names.mpr hholder)
  exact List.mem_map_of_mem (List.mem_filter.mpr ⟨hnode, hup⟩)

theorem length_endpoints_up (h : Mirrors quorum s t) :
    quorum ≤ (s.sys.rm.dataNodeEndpointMap.toList.filter fun node => s.up node.1).length := by
  refine h.enough.trans (le_of_eq ?_)
  rw [h.live, List.filter_map, List.length_map]
  rfl

/-- Requests that leave files and datanodes alone. -/
theorem congr (h : Mirrors quorum s t) {sys : System}
    (hquorum : sys.rm.quorum = s.sys.rm.quorum)
    (hendpoints : sys.rm.dataNodeEndpointMap = s.sys.rm.dataNodeEndpointMap)
    (hholders : ∀ p, sys.rm.holders p = s.sys.rm.holders p)
    (hversions : sys.rm.persistedVersionMap = s.sys.rm.persistedVersionMap)
    (hnodes : sys.nodes = s.sys.nodes) : Mirrors quorum { s with sys } t where
  quorum_eq := hquorum.trans h.quorum_eq
  live := by rw [hendpoints]; exact h.live
  enough := h.enough
  connected := by rw [hendpoints]; exact h.connected
  known := by simp only [hholders, hendpoints]; exact h.known
  held := by simp only [hholders]; exact h.held
  unheld := by simp only [hholders]; exact h.unheld
  copies := by rw [hnodes]; exact h.copies
  versions := hversions.trans h.versions

/-! ### The requests -/

theorem createCommits (h : Mirrors quorum s t) (p : Bytes) (v : Int32) (d : Bytes) :
    s.sys.createCommits p v d (answersOf s.up).write = true := by
  rw [System.createCommits, ackedNodes_answersOf, h.quorum_eq]
  exact decide_eq_true h.length_endpoints_up

theorem updateCommits (h : Mirrors quorum s t) {p : Bytes} (hp : p ∈ t.files) (seen : Int32)
    (d : Bytes) : s.sys.updateCommits p seen d (answersOf s.up).write = true := by
  rw [System.updateCommits, ackedNodes_answersOf, h.quorum_eq]
  exact decide_eq_true ((min_le_left _ _).trans (h.length_filter_up hp))

/-- A file is written by every datanode that is connected. -/
theorem written (h : Mirrors quorum s t) {sys : System} {p : Bytes} {file : StoredFile}
    (hquorum : sys.rm.quorum = s.sys.rm.quorum)
    (hendpoints : sys.rm.dataNodeEndpointMap = s.sys.rm.dataNodeEndpointMap)
    (hholders : ∀ q n, n ∈ sys.rm.holders q ↔ (q = p ∧ n ∈ t.live) ∨ n ∈ s.sys.rm.holders q)
    (hnodes : ∀ n ∈ t.live, ∀ q, sys.nodes n q = if q = p then some file else s.sys.nodes n q)
    (hversions : sys.rm.persistedVersionMap
      = s.sys.rm.persistedVersionMap.insert p file.version) :
    Mirrors quorum { s with sys } { t with files := t.files.insert p file } where
  quorum_eq := hquorum.trans h.quorum_eq
  live := by rw [hendpoints]; exact h.live
  enough := h.enough
  connected := by rw [hendpoints]; exact h.connected
  known q n hn := by
    rw [hendpoints]
    rcases (hholders q n).mp hn with ⟨-, hlive⟩ | hold
    · exact (h.mem_live.mp hlive).1
    · exact h.known q n hold
  held q hq n hn := by
    refine (hholders q n).mpr ?_
    rcases Std.ExtTreeMap.mem_insert.mp hq with heq | hmem
    · exact Or.inl ⟨(Std.LawfulEqOrd.eq_of_compare heq).symm, hn⟩
    · exact Or.inr (h.held q hmem n hn)
  unheld q hq := by
    rw [Std.ExtTreeMap.mem_insert, not_or] at hq
    have hne : q ≠ p := fun heq => hq.1 (by rw [heq]; exact Std.ReflOrd.compare_self)
    refine Std.ExtTreeMap.eq_empty_iff_forall_not_mem.mpr fun n hn => ?_
    rcases (hholders q n).mp hn with ⟨heq, -⟩ | hold
    · exact hne heq
    · rw [h.unheld q hq.2] at hold
      simp at hold
  copies n hn q := by
    rw [hnodes n hn, Std.ExtTreeMap.getElem?_insert]
    by_cases hq : p = q
    · subst hq
      simp
    · rw [if_neg (Ne.symm hq), if_neg fun heq => hq (Std.LawfulEqOrd.eq_of_compare heq)]
      exact h.copies n hn q
  versions := by rw [hversions, h.versions, fileVersions_insert]

/-- A CREATE_FILE is stored by every datanode that is connected. -/
theorem create (h : Mirrors quorum s t) (client p : Bytes) (v : Int32) (d : Bytes) :
    let created := s.sys.propagateCreateFile (answersOf s.up).write (answersOf s.up).rollback p v
      client d
    created.1 = true ∧ Mirrors quorum { s with sys := created.2.1 }
      { t with files := t.files.insert p ⟨d, v⟩ } := by
  intro created
  obtain ⟨hreply, hsys⟩ := System.create_of_commits s.sys (answersOf s.up).write
    (answersOf s.up).rollback p v client d (h.createCommits p v d)
  rw [ackedNodes_answersOf] at hsys
  refine ⟨hreply, h.written ?_ ?_ (fun q n => ?_) (fun n hn q => ?_) ?_⟩
  · rw [hsys]
    show (ReplicationManager.addHolders _ _ _).replicationFactor / 2 + 1 = _
    rw [ReplicationManager.addHolders_eq]
    rfl
  · rw [hsys]
    exact ReplicationManager.addHolders_endpoints _ _ _
  · rw [hsys, ReplicationManager.mem_holders_commitCreate, h.live, List.filter_map]
    rfl
  · obtain ⟨hendpoint, hup⟩ := h.mem_live.mp hn
    rw [hsys]
    refine (fanOut_answersOf s.up p _ _ _ n q).trans ?_
    simp only [hup, mem_names, hendpoint, and_true]
  · rw [hsys, ReplicationManager.persistedVersionMap_commitCreate]

/-- An UPDATE_FILE of a file that is there is stored by every datanode that is connected. -/
theorem update (h : Mirrors quorum s t) (client : Bytes) {p : Bytes} (hp : p ∈ t.files)
    (seen : Int32) (d : Bytes) :
    let v := (t.files[p]?.map StoredFile.version).getD seen + 1
    let updated := s.sys.propagateUpdateFile (answersOf s.up).write p seen client d
    updated.1 = v ∧ Mirrors quorum { s with sys := updated.2.1 }
      { t with files := t.files.insert p ⟨d, v⟩ } := by
  intro v updated
  have hversion : s.sys.newVersion p seen = v := by
    rw [System.newVersion, h.versions, getElem?_fileVersions]
  obtain ⟨hreply, hsys⟩ := System.update_of_commits s.sys (answersOf s.up).write p seen client d
    (h.updateCommits hp seen d)
  rw [hversion] at hreply hsys
  refine ⟨hreply, h.written ?_ ?_ (fun q n => ?_) (fun n hn q => ?_) ?_⟩
  · rw [hsys]
    rfl
  · rw [hsys]
    rfl
  · rw [hsys]
    refine ⟨Or.inr, ?_⟩
    rintro (⟨rfl, hlive⟩ | hold)
    · exact h.held q hp n hlive
    · exact hold
  · obtain ⟨hholder, hup⟩ := (h.up_holders hp).mpr hn
    rw [hsys]
    refine (fanOut_answersOf s.up p _ _ _ n q).trans ?_
    simp only [hup, mem_names, hholder, and_true]
  · rw [hsys, ReplicationManager.persistedVersionMap_commitUpdate]

/-- A DELETE_FILE is carried out by every datanode that is connected. -/
theorem delete (h : Mirrors quorum s t) (client p : Bytes) :
    Mirrors quorum
      { s with sys := (s.sys.propagateDeleteFile (answersOf s.up).delete p client).1 }
      { t with files := t.files.erase p } := by
  rw [System.delete_of_commits (deleteCommits_answersOf s.sys s.up p)]
  have hholders := s.sys.rm.holders_commitDelete p
  exact {
    quorum_eq := h.quorum_eq
    live := h.live
    enough := h.enough
    connected := h.connected
    known := fun q n hn => h.known q n (s.sys.rm.mem_of_mem_holders_commitDelete hn)
    held := fun q hq n hn => by
      obtain ⟨hne, hmem⟩ := Std.ExtTreeMap.mem_erase.mp hq
      rw [hholders, if_neg fun heq => hne (by rw [heq]; exact Std.ReflOrd.compare_self)]
      exact h.held q hmem n hn
    unheld := fun q hq => by
      rw [hholders]
      split
      · rfl
      · rename_i hne
        refine h.unheld q fun hmem => hq (Std.ExtTreeMap.mem_erase.mpr ⟨?_, hmem⟩)
        exact fun heq => hne (Std.LawfulEqOrd.eq_of_compare heq)
    copies := fun n hn q => by
      refine (deleteAll_answersOf s.up p _ s.sys.nodes n q).trans ?_
      rw [Std.ExtTreeMap.getElem?_erase]
      by_cases hq : p = q
      · subst hq
        rw [if_pos Std.ReflOrd.compare_self]
        split
        · rfl
        · -- a datanode that is not asked has no copy
          rename_i hunasked
          refine (h.copies n hn p).trans (no_entry_iff.mpr fun hp => hunasked ⟨rfl, ?_⟩)
          obtain ⟨hholder, hup⟩ := (h.up_holders hp).mpr hn
          exact ⟨hup, mem_names.mpr hholder⟩
      · rw [if_neg fun heq => hq heq.1.symm,
          if_neg fun heq => hq (Std.LawfulEqOrd.eq_of_compare heq)]
        exact h.copies n hn q
    versions := by
      rw [fileVersions_erase, ← h.versions]
      rfl }

/-- A READ_FILE finds the file on the first holder that is connected. -/
theorem read (h : Mirrors quorum s t) (p : Bytes) :
    s.sys.getFileFromDataNode (answersOf s.up).read p = t.files[p]?.map StoredFile.bytes := by
  have hserved : ∀ n session, (answersOf s.up).read n session = .served ↔ s.up n = true := by
    intro n session
    cases hup : s.up n <;> simp [answersOf, hup]
  have hdead : ∀ n session, (answersOf s.up).read n session ≠ .dead ↔ s.up n = true := by
    intro n session
    cases hup : s.up n <;> simp [answersOf, hup]
  rw [System.getFileFromDataNode]
  simp only [hserved, hdead]
  cases hfile : t.files[p]? with
  | none =>
    rw [h.unheld p (no_entry_iff.mp hfile)]
    simp
  | some file =>
    have hp : p ∈ t.files := mem_of_entry hfile
    have hversion : s.sys.rm.getKnownVersion p = file.version := by
      rw [ReplicationManager.getKnownVersion, h.versions, getElem?_fileVersions, hfile]
      rfl
    -- any holder that is connected has the file, and it is current
    obtain ⟨n, hn⟩ := h.exists_live
    obtain ⟨hholder, hup⟩ := (h.up_holders hp).mpr hn
    obtain ⟨node, hnode, rfl⟩ := List.mem_map.mp (mem_names.mpr hholder)
    set holders := (s.sys.rm.holders p).toList.filter fun node => decide (s.up node.1 = true)
      with hholders
    have hcurrent : ∀ node ∈ holders, s.up node.1 = true ∧ s.sys.nodes node.1 p = some file := by
      intro node hmem
      obtain ⟨hmem, hup⟩ := List.mem_filter.mp hmem
      have hup := of_decide_eq_true hup
      have hlive := (h.up_holders hp).mp ⟨mem_names.mp (List.mem_map_of_mem hmem), hup⟩
      exact ⟨hup, (h.copies node.1 hlive p).trans hfile⟩
    have hne : holders ≠ [] :=
      List.ne_nil_of_mem (List.mem_filter.mpr ⟨hnode, decide_eq_true hup⟩)
    obtain ⟨first, rest, hcons⟩ := List.exists_cons_of_ne_nil hne
    obtain ⟨hfirst, hcopy⟩ := hcurrent first (hcons ▸ List.mem_cons_self)
    rw [hcons, List.findSome?_cons, if_pos hfirst, hcopy]
    dsimp only
    rw [hversion, if_pos (Or.inr (Int32.le_refl _))]
    rfl

/-- A datanode is lost. -/
theorem lose (h : Mirrors quorum s t) {name : Bytes}
    (henough : quorum ≤ (t.live.filter (· ≠ name)).length) :
    Mirrors quorum { s with up := Function.update s.up name false }
      { t with live := t.live.filter (· ≠ name) } where
  quorum_eq := h.quorum_eq
  live := by
    rw [h.live, List.filter_filter]
    refine List.filter_congr fun n _ => ?_
    by_cases hn : n = name
    · simp [hn]
    · simp [hn, Function.update_of_ne]
  enough := henough
  connected n hup := by
    by_cases hn : n = name
    · simp [hn] at hup
    · simp only [Function.update_of_ne hn] at hup
      exact h.connected n hup
  known := h.known
  held p hp n hn := h.held p hp n (List.mem_filter.mp hn).1
  unheld := h.unheld
  copies n hn := h.copies n (List.mem_filter.mp hn).1
  versions := h.versions

end Mirrors

/-- A server that has no files yet, with its datanodes registered. -/
def LiveSystem.start (replicationFactor : ℕ) (endpoints : StrMap SessionId) : LiveSystem where
  sys :=
    { rm := { ReplicationManager.start replicationFactor none with
        dataNodeEndpointMap := endpoints }
      nodes := fun _ _ => none }
  up := endpoints.contains

theorem Mirrors.start {replicationFactor : ℕ} {endpoints : StrMap SessionId}
    (hquorum : replicationFactor / 2 + 1 ≤ endpoints.size) :
    Mirrors (replicationFactor / 2 + 1) (.start replicationFactor endpoints)
      ⟨∅, endpoints.keys⟩ := by
  have hholders : ∀ p, (LiveSystem.start replicationFactor endpoints).sys.rm.holders p = ∅ := by
    intro p
    simp [LiveSystem.start, ReplicationManager.start, ReplicationManager.holders]
  exact {
    quorum_eq := rfl
    live := by
      show endpoints.keys = (endpoints.toList.map Prod.fst).filter endpoints.contains
      rw [Std.ExtTreeMap.map_fst_toList_eq_keys, List.filter_eq_self.mpr]
      exact fun n hn => Std.ExtTreeMap.contains_iff_mem.mpr (Std.ExtTreeMap.mem_keys.mp hn)
    enough := by rw [Std.ExtTreeMap.length_keys]; exact hquorum
    connected := fun n hup => Std.ExtTreeMap.contains_iff_mem.mp hup
    known := fun p n hn => by simp [hholders] at hn
    held := by simp
    unheld := fun p _ => hholders p
    copies := by simp [LiveSystem.start]
    versions := by
      refine Std.ExtTreeMap.ext_getElem? fun p => ?_
      simp [LiveSystem.start, ReplicationManager.start, StateManager.loadVersionMap,
        getElem?_fileVersions] }

/-! ### The refinement -/

/-- **The server is a map of files** as long as a quorum of its datanodes is connected. -/
theorem liveSystem_refines (quorum : ℕ) :
    Responders.Refines LiveSystem.step FileServer.step (Mirrors quorum)
      (FileServer.Meant quorum) := by
  have hstep : ∀ s t input, Mirrors quorum s t → t.Meant quorum input →
      (s.step input).1 = (t.step input).1 ∧ Mirrors quorum (s.step input).2 (t.step input).2 := by
    intro s t input h hmeant
    cases input with
    | lose name => exact ⟨rfl, h.lose hmeant⟩
    | request client r =>
      cases r with
      | createFile p v d =>
        obtain ⟨hreply, hmirrors⟩ := h.create client p v d
        refine ⟨?_, hmirrors⟩
        show some ((Response.ack _).message, []) = _
        rw [hreply]
        rfl
      | readFile p =>
        have hread := h.read p
        simp only [LiveSystem.step, FileRequest.rpc, System.respond, FileServer.step, serveFiles]
        cases hfile : t.files[p]? with
        | none =>
          rw [hfile, Option.map_none] at hread
          rw [hread]
          exact ⟨rfl, h⟩
        | some file =>
          have hversion : s.sys.rm.getKnownVersion p = file.version := by
            rw [ReplicationManager.getKnownVersion, h.versions, getElem?_fileVersions, hfile]
            rfl
          rw [hfile, Option.map_some] at hread
          rw [hread]
          dsimp only
          rw [hversion]
          exact ⟨rfl, h⟩
      | updateFile p seen d =>
        obtain ⟨hreply, hmirrors⟩ := h.update client hmeant seen d
        have hreceived : (!(answersOf s.up).received) = false := rfl
        simp only [LiveSystem.step, FileRequest.rpc, System.respond, FileServer.step, serveFiles,
          hreceived, Bool.false_eq_true, if_false, hreply]
        split
        · exact ⟨rfl, hmirrors⟩
        · exact ⟨rfl, hmirrors⟩
      | deleteFile p => exact ⟨rfl, h.delete client p⟩
  exact ⟨fun s t input h hmeant => (hstep s t input h hmeant).1,
    fun s t input h hmeant => (hstep s t input h hmeant).2⟩

end Squid
