/-
Two write requests for one file, handled at the same time by two pool threads.

Each call takes `stateMutex_` for short sections only: to read the version, to
copy the list of datanodes, and to commit.  Between them it sends one RPC after
the other with no lock held.  `Thread.step` is one such section or one RPC, all
datanodes ACKing; what a step touches is the version of the file, its holders,
and the datanodes' copies.

* `reaches_serve` — a thread on its own does what `propagateCreateFile`,
  `propagateUpdateFile` and `propagateDeleteFile` do;
* `concurrent_writes_serial` — an interleaving in which the conflicts between
  the two requests all go one way gives what the two calls give one after the
  other;
* `concurrent_updates_diverge` — two updates that get the same version and
  leave different bytes on the two replicas.
-/
import SquidStorage.Interleaving
import SquidStorage.ReplicationRuns

open BigEndian LastWrite Interleaving

namespace Squid

/-! ### The shared state of one file -/

inductive Loc where
  /-- `persistedVersionMap_[filePath]` -/
  | version
  /-- `dataNodeReplicationMap_[filePath]` -/
  | holders
  /-- the copy of the file on a datanode -/
  | copy (name : Bytes)
deriving DecidableEq

@[reducible] def Loc.Val : Loc → Type
  | .version => Option Int32
  | .holders => StrMap SessionId
  | .copy _ => Option StoredFile

abbrev Mem : Type := (x : Loc) → x.Val

def Mem.of (version : Option Int32) (holders : StrMap SessionId)
    (copies : Bytes → Option StoredFile) : Mem
  | .version => version
  | .holders => holders
  | .copy name => copies name

/-- What a system holds for one file. -/
def System.file (sys : System) (filePath : Bytes) : Mem :=
  .of sys.rm.persistedVersionMap[filePath]? (sys.rm.holders filePath)
    fun name => sys.nodes name filePath

/-! ### Requests and threads -/

inductive Request where
  | create (version : Int32) (fileData : Bytes)
  | update (clientSeenVersion : Int32) (fileData : Bytes)
  | delete
deriving DecidableEq

/-- What the calls return. -/
inductive Reply where
  | created (ok : Bool)
  | updated (version : Int32)
  | deleted
deriving DecidableEq

/-- Where a call is.  The lists are the datanodes that are still to be sent the
RPC, and those that have ACKed. -/
inductive Thread where
  | received (request : Request)
  /-- `propagateUpdateFile` has its new version, but not its datanodes -/
  | versionRead (newVersion : Int32) (fileData : Bytes)
  | creating (version : Int32) (fileData : Bytes) (left ackedNodes : List (Bytes × SessionId))
  | updating (newVersion : Int32) (fileData : Bytes) (left : List (Bytes × SessionId))
      (datanodes ackedNodes : ℕ)
  | deleting (left : List (Bytes × SessionId)) (total acks : ℕ)
  /-- the deletes queued by a create that missed its quorum -/
  | rollingBack (left : List (Bytes × SessionId))
  | replied (reply : Reply)
deriving DecidableEq

namespace Thread

variable (quorum : ℕ) (endpoints : StrMap SessionId)

/-- One section under `stateMutex_`, or one RPC. -/
def step : Thread → Mem → Thread × Mem
  | .received (.create version fileData), m => (.creating version fileData endpoints.toList [], m)
  | .received (.update seen fileData), m =>
    (.versionRead ((m .version).getD seen + 1) fileData, m)
  | .received .delete, m => (.deleting (m .holders).toList 0 0, m)
  | .versionRead newVersion fileData, m =>
    (.updating newVersion fileData (m .holders).toList (m .holders).toList.length 0, m)
  | .creating version fileData (node :: left) ackedNodes, m =>
    (.creating version fileData left (ackedNodes ++ [node]),
      Function.update m (.copy node.1) (some ⟨fileData, version⟩))
  | .creating version _ [] ackedNodes, m =>
    if ackedNodes.length < quorum then (.rollingBack ackedNodes, m)
    else
      let holders := ackedNodes.foldl (fun h node => h.insert node.1 node.2) (m .holders)
      (.replied (.created true),
        Function.update (Function.update m .holders holders) .version (some version))
  | .updating newVersion fileData (node :: left) datanodes ackedNodes, m =>
    (.updating newVersion fileData left datanodes (ackedNodes + 1),
      Function.update m (.copy node.1) (some ⟨fileData, newVersion⟩))
  | .updating newVersion _ [] datanodes ackedNodes, m =>
    if ackedNodes < min quorum datanodes then (.replied (.updated (-1)), m)
    else (.replied (.updated newVersion), Function.update m .version (some newVersion))
  | .deleting (node :: left) total acks, m =>
    (.deleting left (total + 1) (acks + 1), Function.update m (.copy node.1) none)
  | .deleting [] total acks, m =>
    if 0 < total ∧ acks < min quorum total then (.replied .deleted, m)
    else (.replied .deleted, Function.update (Function.update m .holders ∅) .version none)
  | .rollingBack (node :: left), m =>
    (.rollingBack left, Function.update m (.copy node.1) none)
  | .rollingBack [], m => (.replied (.created false), m)
  | .replied reply, m => (.replied reply, m)

/-- What the next step looks at. -/
def reads : Thread → Loc → Prop
  | .received (.update _ _), x => x = .version
  | .received .delete, x => x = .holders
  | .versionRead _ _, x => x = .holders
  | .creating _ _ [] _, x => x = .holders
  | _, _ => False

/-- What the next step changes. -/
def writes : Thread → Loc → Prop
  | .creating _ _ (node :: _) _, x => x = .copy node.1
  | .updating _ _ (node :: _) _ _, x => x = .copy node.1
  | .deleting (node :: _) _ _, x => x = .copy node.1
  | .rollingBack (node :: _), x => x = .copy node.1
  | .creating _ _ [] ackedNodes, x => quorum ≤ ackedNodes.length ∧ (x = .version ∨ x = .holders)
  | .updating _ _ [] datanodes ackedNodes, x => min quorum datanodes ≤ ackedNodes ∧ x = .version
  | .deleting [] total acks, x =>
    ¬ (0 < total ∧ acks < min quorum total) ∧ (x = .version ∨ x = .holders)
  | _, _ => False

theorem update_entry_of_ne {x : Loc} (hx : ¬ (x = .version ∨ x = .holders)) (m : Mem)
    (holders : StrMap SessionId) (version : Option Int32) :
    Function.update (Function.update m .holders holders) .version version x = m x := by
  rw [Function.update_of_ne fun hv => hx (Or.inl hv),
    Function.update_of_ne fun hh => hx (Or.inr hh)]

theorem step_frame (t : Thread) (m : Mem) (x : Loc) (h : ¬ t.writes quorum x) :
    (t.step quorum endpoints m).2 x = m x := by
  cases t with
  | received request => cases request <;> rfl
  | versionRead | replied => rfl
  | creating version fileData left ackedNodes =>
    cases left with
    | cons node left => exact Function.update_of_ne h _ _
    | nil =>
      simp only [step]
      split
      · rfl
      · rename_i hquorum
        exact update_entry_of_ne (fun hx => h ⟨by omega, hx⟩) _ _ _
  | updating newVersion fileData left datanodes ackedNodes =>
    cases left with
    | cons node left => exact Function.update_of_ne h _ _
    | nil =>
      simp only [step]
      split
      · rfl
      · rename_i hquorum
        exact Function.update_of_ne (fun hx => h ⟨by omega, hx⟩) _ _
  | deleting left total acks =>
    cases left with
    | cons node left => exact Function.update_of_ne h _ _
    | nil =>
      simp only [step]
      split
      · rfl
      · rename_i hquorum
        exact update_entry_of_ne (fun hx => h ⟨hquorum, hx⟩) _ _ _
  | rollingBack left =>
    cases left with
    | cons node left => exact Function.update_of_ne h _ _
    | nil => rfl

theorem step_depends (t : Thread) (m m' : Mem) (h : ∀ x, t.reads x → m x = m' x) :
    (t.step quorum endpoints m).1 = (t.step quorum endpoints m').1 ∧
      ∀ x, t.writes quorum x →
        (t.step quorum endpoints m).2 x = (t.step quorum endpoints m').2 x := by
  -- one RPC writes one copy, whatever the memory
  have hcopy : ∀ {name : Bytes} {file : Option StoredFile} {x : Loc}, x = .copy name →
      Function.update m (.copy name) file x = Function.update m' (.copy name) file x := by
    rintro name file x rfl
    rw [Function.update_self, Function.update_self]
  cases t with
  | received request =>
    cases request with
    | create => exact ⟨rfl, fun x hx => absurd hx id⟩
    | update => exact ⟨by simp only [step, h .version rfl], fun x hx => absurd hx id⟩
    | delete => exact ⟨by simp only [step, h .holders rfl], fun x hx => absurd hx id⟩
  | versionRead => exact ⟨by simp only [step, h .holders rfl], fun x hx => absurd hx id⟩
  | creating version fileData left ackedNodes =>
    cases left with
    | cons node left => exact ⟨rfl, fun x hx => hcopy hx⟩
    | nil =>
      simp only [step]
      split
      · rename_i hquorum
        exact ⟨rfl, fun x hx => absurd hx.1 (by omega)⟩
      · refine ⟨rfl, fun x hx => ?_⟩
        rcases hx.2 with rfl | rfl
        · simp
        · simp [h .holders rfl]
  | updating newVersion fileData left datanodes ackedNodes =>
    cases left with
    | cons node left => exact ⟨rfl, fun x hx => hcopy hx⟩
    | nil =>
      simp only [step]
      split
      · rename_i hquorum
        exact ⟨rfl, fun x hx => absurd hx.1 (by omega)⟩
      · refine ⟨rfl, fun x hx => ?_⟩
        obtain rfl := hx.2
        simp
  | deleting left total acks =>
    cases left with
    | cons node left => exact ⟨rfl, fun x hx => hcopy hx⟩
    | nil =>
      simp only [step]
      split
      · rename_i hquorum
        exact ⟨rfl, fun x hx => absurd hquorum hx.1⟩
      · refine ⟨rfl, fun x hx => ?_⟩
        rcases hx.2 with rfl | rfl <;> simp
  | rollingBack left =>
    cases left with
    | cons node left => exact ⟨rfl, fun x hx => hcopy hx⟩
    | nil => exact ⟨rfl, fun x hx => absurd hx id⟩
  | replied => exact ⟨rfl, fun x hx => absurd hx id⟩

/-- The two calls as threads over the state of the file. -/
def program : Program Loc Loc.Val Thread where
  step := step quorum endpoints
  reads := reads
  writes := writes quorum
  frame := step_frame quorum endpoints
  depends := step_depends quorum endpoints

end Thread

/-! ### One call after the other -/

/-- A request handled by itself, all datanodes ACKing. -/
def System.serve (sys : System) (filePath origin : Bytes) : Request → Reply × System
  | .create version fileData =>
    let result := sys.propagateCreateFile (fun _ _ => .acked) (fun _ _ => .acked) filePath version
      origin fileData
    (.created result.1, result.2.1)
  | .update seen fileData =>
    let result := sys.propagateUpdateFile (fun _ _ => .acked) filePath seen origin fileData
    (.updated result.1, result.2.1)
  | .delete => (.deleted, (sys.propagateDeleteFile (fun _ _ => .acked) filePath origin).1)

/-- One RPC to each datanode of a list. -/
def storeAll (file : Option StoredFile) (targets : List (Bytes × SessionId)) (m : Mem) : Mem :=
  targets.foldl (fun m node => Function.update m (.copy node.1) file) m

theorem of_storeAt (version : Option Int32) (holders : StrMap SessionId) (nodes : DataNodes)
    (name filePath : Bytes) (file : Option StoredFile) :
    Mem.of version holders (fun n => storeAt nodes name filePath file n filePath)
      = Function.update (Mem.of version holders fun n => nodes n filePath) (.copy name) file := by
  funext x
  cases x with
  | version => rfl
  | holders => rfl
  | copy n =>
    by_cases hn : n = name
    · subst hn
      simp [Mem.of, storeAt]
    · have hne : Loc.copy n ≠ .copy name := fun h => hn (Loc.copy.inj h)
      rw [Function.update_of_ne hne]
      simp [Mem.of, storeAt, hn]

theorem of_fanOut (version : Option Int32) (holders : StrMap SessionId) (filePath : Bytes)
    (file : StoredFile) (targets : List (Bytes × SessionId)) (nodes : DataNodes) :
    Mem.of version holders
        (fun n => (fanOut (fun _ _ => .acked) filePath file targets nodes).1 n filePath)
      = storeAll (some file) targets (Mem.of version holders fun n => nodes n filePath) := by
  induction targets generalizing nodes with
  | nil => rfl
  | cons node targets ih =>
    rw [storeAll, List.foldl_cons, ← of_storeAt]
    exact ih _

theorem of_deleteAll (version : Option Int32) (holders : StrMap SessionId) (filePath : Bytes)
    (targets : List (Bytes × SessionId)) (nodes : DataNodes) :
    Mem.of version holders
        (fun n => deleteAll (fun _ _ => .acked) filePath targets nodes n filePath)
      = storeAll none targets (Mem.of version holders fun n => nodes n filePath) := by
  induction targets generalizing nodes with
  | nil => rfl
  | cons node targets ih =>
    rw [storeAll, List.foldl_cons, ← of_storeAt]
    exact ih _

theorem fanOut_all_acked (filePath : Bytes) (file : StoredFile)
    (targets : List (Bytes × SessionId)) (nodes : DataNodes) :
    (fanOut (fun _ _ => .acked) filePath file targets nodes).2 = targets := by
  rw [fanOut_ackedNodes]
  exact List.filter_eq_self.mpr fun _ _ => rfl

theorem holders_addHolders (rm : ReplicationManager) (filePath : Bytes)
    (nodes : List (Bytes × SessionId)) :
    (rm.addHolders filePath nodes).holders filePath
      = nodes.foldl (fun h node => h.insert node.1 node.2) (rm.holders filePath) := by
  induction nodes generalizing rm with
  | nil => rfl
  | cons node nodes ih =>
    rw [ReplicationManager.addHolders, List.foldl_cons, List.foldl_cons]
    refine (ih _).trans ?_
    simp [ReplicationManager.addHolder, ReplicationManager.holders]

theorem of_update_entry (version version' : Option Int32) (holders holders' : StrMap SessionId)
    (copies : Bytes → Option StoredFile) :
    Function.update (Function.update (Mem.of version holders copies) .holders holders')
      .version version' = Mem.of version' holders' copies := by
  funext x
  cases x <;> simp [Mem.of]

theorem of_update_version (version version' : Option Int32) (holders : StrMap SessionId)
    (copies : Bytes → Option StoredFile) :
    Function.update (Mem.of version holders copies) .version version'
      = Mem.of version' holders copies := by
  funext x
  cases x <;> simp [Mem.of]

/-! ### The loops of a thread -/

namespace Thread

variable (quorum : ℕ) (endpoints : StrMap SessionId)

theorem reaches_creating (version : Int32) (fileData : Bytes)
    (left ackedNodes : List (Bytes × SessionId)) (m : Mem) :
    Reaches (program quorum endpoints) (.creating version fileData left ackedNodes, m)
      (.creating version fileData [] (ackedNodes ++ left),
        storeAll (some ⟨fileData, version⟩) left m) := by
  induction left generalizing ackedNodes m with
  | nil =>
    rw [List.append_nil]
    exact Reaches.refl _
  | cons node left ih =>
    refine Reaches.step ?_
    rw [List.append_cons]
    exact ih (ackedNodes ++ [node]) _

theorem reaches_updating (newVersion : Int32) (fileData : Bytes)
    (left : List (Bytes × SessionId)) (datanodes ackedNodes : ℕ) (m : Mem) :
    Reaches (program quorum endpoints) (.updating newVersion fileData left datanodes ackedNodes, m)
      (.updating newVersion fileData [] datanodes (ackedNodes + left.length),
        storeAll (some ⟨fileData, newVersion⟩) left m) := by
  induction left generalizing ackedNodes m with
  | nil => exact Reaches.refl _
  | cons node left ih =>
    refine Reaches.step ?_
    rw [List.length_cons, Nat.add_comm left.length, ← Nat.add_assoc]
    exact ih (ackedNodes + 1) _

theorem reaches_deleting (left : List (Bytes × SessionId)) (total acks : ℕ) (m : Mem) :
    Reaches (program quorum endpoints) (.deleting left total acks, m)
      (.deleting [] (total + left.length) (acks + left.length), storeAll none left m) := by
  induction left generalizing total acks m with
  | nil => exact Reaches.refl _
  | cons node left ih =>
    refine Reaches.step ?_
    rw [List.length_cons, Nat.add_comm left.length, ← Nat.add_assoc, ← Nat.add_assoc]
    exact ih (total + 1) (acks + 1) _

theorem reaches_rollingBack (left : List (Bytes × SessionId)) (m : Mem) :
    Reaches (program quorum endpoints) (.rollingBack left, m)
      (.replied (.created false), storeAll none left m) := by
  induction left generalizing m with
  | nil => exact Reaches.step (Reaches.refl _)
  | cons node left ih => exact Reaches.step (ih _)

end Thread

namespace System

variable (sys : System) (filePath origin : Bytes)

/-- The calls of the file as threads, in a given system. -/
abbrev program : Program Loc Loc.Val Thread :=
  Thread.program sys.rm.quorum sys.rm.dataNodeEndpointMap

theorem reaches_create (version : Int32) (fileData : Bytes) :
    Reaches sys.program (.received (.create version fileData), sys.file filePath)
      (.replied (sys.serve filePath origin (.create version fileData)).1,
        (sys.serve filePath origin (.create version fileData)).2.file filePath) := by
  set datanodes := sys.rm.dataNodeEndpointMap.toList with hdatanodes
  have hfan := Thread.reaches_creating sys.rm.quorum sys.rm.dataNodeEndpointMap version fileData
    datanodes [] (sys.file filePath)
  rw [List.nil_append] at hfan
  refine Reaches.step (hfan.trans (Reaches.step ?_))
  by_cases hquorum : datanodes.length < sys.rm.quorum
  · -- too few datanodes: everything that was stored is deleted again
    have hstep : sys.program.step (.creating version fileData [] datanodes)
        (storeAll (some ⟨fileData, version⟩) datanodes (sys.file filePath))
        = (.rollingBack datanodes,
          storeAll (some ⟨fileData, version⟩) datanodes (sys.file filePath)) := if_pos hquorum
    rw [hstep]
    refine (Thread.reaches_rollingBack _ _ datanodes _).trans ⟨0, ?_⟩
    simp only [serve, propagateCreateFile, fanOut_all_acked, ← hdatanodes, if_pos hquorum, alone,
      file, of_deleteAll, of_fanOut]
  · -- the commit section of `propagateCreateFile`
    refine ⟨0, (if_neg hquorum).trans ?_⟩
    simp only [serve, propagateCreateFile, fanOut_all_acked, ← hdatanodes, if_neg hquorum]
    simp only [file, ← of_fanOut, of_update_entry]
    rw [ReplicationManager.persistedVersionMap_commitCreate, Std.ExtTreeMap.getElem?_insert_self]
    exact congrArg (fun h => (_, Mem.of _ h _)) (holders_addHolders sys.rm filePath datanodes).symm

theorem reaches_update (seen : Int32) (fileData : Bytes) :
    Reaches sys.program (.received (.update seen fileData), sys.file filePath)
      (.replied (sys.serve filePath origin (.update seen fileData)).1,
        (sys.serve filePath origin (.update seen fileData)).2.file filePath) := by
  set datanodes := (sys.rm.holders filePath).toList with hdatanodes
  have hfan := Thread.reaches_updating sys.rm.quorum sys.rm.dataNodeEndpointMap
    (sys.newVersion filePath seen) fileData datanodes datanodes.length 0 (sys.file filePath)
  rw [Nat.zero_add] at hfan
  refine Reaches.step (Reaches.step (hfan.trans (Reaches.step ?_)))
  -- every datanode has ACKed, so the effective quorum is met
  have hquorum : ¬ datanodes.length < min sys.rm.quorum datanodes.length := by omega
  refine ⟨0, (if_neg hquorum).trans ?_⟩
  simp only [serve, propagateUpdateFile, fanOut_all_acked, ← hdatanodes, if_neg hquorum]
  simp only [file, ← of_fanOut, of_update_version]
  rw [ReplicationManager.persistedVersionMap_commitUpdate, Std.ExtTreeMap.getElem?_insert_self]
  rfl

theorem reaches_delete :
    Reaches sys.program (.received .delete, sys.file filePath)
      (.replied (sys.serve filePath origin .delete).1,
        (sys.serve filePath origin .delete).2.file filePath) := by
  set datanodes := (sys.rm.holders filePath).toList with hdatanodes
  have hfan := Thread.reaches_deleting sys.rm.quorum sys.rm.dataNodeEndpointMap datanodes 0 0
    (sys.file filePath)
  rw [Nat.zero_add] at hfan
  refine Reaches.step (hfan.trans (Reaches.step ?_))
  -- as many ACKs as datanodes that were sent the delete
  have hquorum :
      ¬ (0 < datanodes.length ∧ datanodes.length < min sys.rm.quorum datanodes.length) := by
    omega
  have hall : ∀ p : Bytes × SessionId → Bool, (∀ d, p d = true) → datanodes.filter p = datanodes :=
    fun p hp => List.filter_eq_self.mpr fun d _ => hp d
  refine ⟨0, (if_neg hquorum).trans ?_⟩
  have hserve : sys.serve filePath origin .delete = (.deleted,
      { rm := sys.rm.commitDelete filePath
        nodes := deleteAll (fun _ _ => .acked) filePath datanodes sys.nodes }) := by
    simp only [serve, propagateDeleteFile, ← hdatanodes]
    rw [hall _ (by simp), hall _ (by simp), if_neg hquorum]
  rw [hserve]
  simp only [file, ← of_deleteAll, of_update_entry]
  congr 2
  · simp [ReplicationManager.commitDelete]
  · simp [ReplicationManager.commitDelete, ReplicationManager.holders,
      ReplicationManager.persistState]

/-- **A thread on its own does what the call does.** -/
theorem reaches_serve (request : Request) :
    Reaches sys.program (.received request, sys.file filePath)
      (.replied (sys.serve filePath origin request).1,
        (sys.serve filePath origin request).2.file filePath) := by
  cases request with
  | create version fileData => exact reaches_create sys filePath origin version fileData
  | update seen fileData => exact reaches_update sys filePath origin seen fileData
  | delete => exact reaches_delete sys filePath origin

/-- A call changes neither the quorum nor the datanodes that a create is sent to. -/
theorem program_serve (request : Request) :
    (sys.serve filePath origin request).2.program = sys.program := by
  have hconst : (sys.serve filePath origin request).2.rm.replicationFactor
        = sys.rm.replicationFactor ∧
      (sys.serve filePath origin request).2.rm.dataNodeEndpointMap
        = sys.rm.dataNodeEndpointMap := by
    cases request with
    | create version fileData =>
      simp only [serve, propagateCreateFile]
      split
      · exact ⟨rfl, rfl⟩
      · rw [ReplicationManager.commitCreate, ReplicationManager.addHolders_eq]
        exact ⟨rfl, rfl⟩
    | update seen fileData =>
      simp only [serve, propagateUpdateFile]
      split <;> exact ⟨rfl, rfl⟩
    | delete =>
      simp only [serve, propagateDeleteFile]
      split <;> exact ⟨rfl, rfl⟩
  rw [program, program, ReplicationManager.quorum, ReplicationManager.quorum, hconst.1, hconst.2]

theorem serve_update (seen : Int32) (fileData : Bytes) :
    sys.serve filePath origin (.update seen fileData)
      = (.updated (sys.newVersion filePath seen),
        { rm := sys.rm.commitUpdate filePath (sys.newVersion filePath seen)
          nodes := (fanOut (fun _ _ => .acked) filePath
            ⟨fileData, sys.newVersion filePath seen⟩ (sys.rm.holders filePath).toList
            sys.nodes).1 }) := by
  have hcommit : sys.updateCommits filePath seen fileData (fun _ _ => .acked) = true := by
    rw [updateCommits, fanOut_all_acked, decide_eq_true_eq]
    exact Nat.min_le_right _ _
  obtain ⟨hret, hsys⟩ := update_of_commits sys _ filePath seen origin fileData hcommit
  rw [serve, hret, hsys]

/-- Two updates one after the other: the versions differ, and all holders have
the bytes of the second. -/
theorem serve_updates (seen seen' : Int32) (fileData fileData' : Bytes) :
    let one := sys.serve filePath origin (.update seen fileData)
    let two := one.2.serve filePath origin (.update seen' fileData')
    ∃ version version' file, one.1 = .updated version ∧ two.1 = .updated version' ∧
      version ≠ version' ∧ ∀ (n : Bytes) (session : SessionId),
        (two.2.file filePath .holders)[n]? = some session →
          two.2.file filePath (.copy n) = some file := by
  intro one two
  have hone : one = _ := serve_update sys filePath origin seen fileData
  have htwo : two = _ := serve_update one.2 filePath origin seen' fileData'
  -- the second update starts from the version that the first has committed
  have hnext : one.2.newVersion filePath seen' = sys.newVersion filePath seen + 1 := by
    rw [newVersion, hone, ReplicationManager.persistedVersionMap_commitUpdate,
      Std.ExtTreeMap.getElem?_insert_self, Option.getD_some]
  have hne : sys.newVersion filePath seen ≠ sys.newVersion filePath seen + 1 := by
    generalize sys.newVersion filePath seen = v
    grind
  refine ⟨_, _, ⟨fileData', one.2.newVersion filePath seen'⟩, by rw [hone], by rw [htwo],
    by rwa [hnext], fun n session hn => ?_⟩
  rw [htwo] at hn ⊢
  exact fanOut_nodes_of_mem _ filePath _ one.2.nodes (nodup_keys_toList _)
    (Std.ExtTreeMap.mem_toList_iff_getElem?_eq_some.mpr hn)

/-! ### Both calls at once -/

/-- Both requests have been received. -/
def bothReceived (request : Turn → Request) : State Loc Loc.Val Thread :=
  { locals := fun who => .received (request who), mem := sys.file filePath }

/-- **Concurrent writes are serialisable** when the conflicts between the two
requests all go one way: whatever the interleaving, the version, the holders,
the copies and the replies are those of the two calls one after the other.  In
particular two updates get different versions and leave the same bytes on all
holders. -/
theorem concurrent_writes_serial (request : Turn → Request) (sched : List Turn)
    (honeWay : ∃ who, OneWay sys.program who sched (sys.bothReceived filePath request))
    (hreplied : ∀ who, ∃ reply,
      (exec sys.program sched (sys.bothReceived filePath request)).locals who = .replied reply) :
    let final := exec sys.program sched (sys.bothReceived filePath request)
    (∃ who,
      let one := sys.serve filePath origin (request who)
      let two := one.2.serve filePath origin (request who.other)
      final.locals who = .replied one.1 ∧ final.locals who.other = .replied two.1 ∧
        final.mem = two.2.file filePath) ∧
    ∀ seen seen' fileData fileData', request .first = .update seen fileData →
      request .second = .update seen' fileData' → ∃ version version' file,
        final.locals .first = .replied (.updated version) ∧
        final.locals .second = .replied (.updated version') ∧ version ≠ version' ∧
        ∀ (n : Bytes) (session : SessionId), (final.mem .holders)[n]? = some session →
          final.mem (.copy n) = some file := by
  intro final
  obtain ⟨who, honeWay⟩ := honeWay
  have hstop : ∀ turn, Stopped sys.program (final.locals turn) := by
    intro turn m
    obtain ⟨reply, hreply⟩ := hreplied turn
    rw [show final.locals turn = _ from hreply]
    rfl
  -- each thread on its own ends where its call ends
  have hone := reaches_serve sys filePath origin (request who)
  have htwo := reaches_serve (sys.serve filePath origin (request who)).2 filePath origin
    (request who.other)
  rw [program_serve] at htwo
  obtain ⟨hwho, hother, hmem⟩ :=
    serial_of_oneWay honeWay hstop hone (fun m => rfl) htwo (fun m => rfl)
  refine ⟨⟨who, hwho, hother, hmem⟩, fun seen seen' fileData fileData' hfirst hsecond => ?_⟩
  rw [show final.mem = _ from hmem]
  cases who with
  | first =>
    simp only [Turn.other, hfirst, hsecond] at hwho hother ⊢
    obtain ⟨v, v', file, hv, hv', hne, hcopies⟩ :=
      serve_updates sys filePath origin seen seen' fileData fileData'
    exact ⟨v, v', file, by rw [← hv]; exact hwho, by rw [← hv']; exact hother, hne, hcopies⟩
  | second =>
    simp only [Turn.other, hfirst, hsecond] at hwho hother ⊢
    obtain ⟨v, v', file, hv, hv', hne, hcopies⟩ :=
      serve_updates sys filePath origin seen' seen fileData' fileData
    exact ⟨v', v, file, by rw [← hv']; exact hother, by rw [← hv]; exact hwho, hne.symm, hcopies⟩

/-- A file on one datanode.  A create takes its list of datanodes before an
update of the file starts, and goes on when the update has returned. -/
theorem concurrent_writes_serial_update_create :
    let empty : System := { rm := ReplicationManager.start 1 none, nodes := fun _ _ => none }
    let sys := empty.after [.register [97] 0 ∅ [],
      .create [102] 1 [99] [120] (fun _ _ => .acked) (fun _ _ => .acked)]
    let request : Turn → Request
      | .first => .update 1 [121]
      | .second => .create 5 [122]
    let sched : List Turn := [.second, .first, .first, .first, .first, .second, .second]
    let final := exec sys.program sched (sys.bothReceived [102] request)
    ∃ who,
      let one := sys.serve [102] [99] (request who)
      let two := one.2.serve [102] [99] (request who.other)
      final.locals who = .replied one.1 ∧ final.locals who.other = .replied two.1 ∧
        final.mem = two.2.file [102] := by
  intro empty sys request sched
  -- taking the list of datanodes conflicts with nothing
  have hfree : ∀ t, ¬ sys.program.Conflict t (.received (.create 5 [122])) := by
    rintro t ⟨x, ⟨-, h | h⟩ | ⟨-, h⟩⟩ <;> exact h
  refine (concurrent_writes_serial sys [102] [99] request sched ⟨.first, ?_⟩ fun who => ?_).1
  · refine ⟨fun _ => ?_, ?_⟩
    · exact ⟨fun _ => hfree _, fun _ => hfree _, fun _ => hfree _, fun _ => hfree _,
        fun h => absurd h (by decide), fun h => absurd h (by decide), trivial⟩
    · simp [OneWay, Clear, Turn.other]
  · cases who
    · exact ⟨.updated 2, by decide⟩
    · exact ⟨.created true, by decide⟩

/-- The file `f` at version 1 on the datanodes `a` and `b`, and two updates that
both read the version before either commits: both are told version 2, and in
the end `a` has the bytes of the second and `b` those of the first.  One after
the other they would have left version 3. -/
theorem concurrent_updates_diverge :
    let empty : System := { rm := ReplicationManager.start 2 none, nodes := fun _ _ => none }
    let sys := empty.after [.register [97] 0 ∅ [], .register [98] 1 ∅ [],
      .create [102] 1 [99] [120] (fun _ _ => .acked) (fun _ _ => .acked)]
    let request : Turn → Request
      | .first => .update 1 [121]
      | .second => .update 1 [122]
    let sched : List Turn := [.first, .second, .first, .second, .first, .second, .second, .first,
      .first, .second]
    let final := exec sys.program sched (sys.bothReceived [102] request)
    final.locals .first = .replied (.updated 2) ∧ final.locals .second = .replied (.updated 2) ∧
      final.mem (.copy [97]) = some ⟨[122], 2⟩ ∧ final.mem (.copy [98]) = some ⟨[121], 2⟩ ∧
      final.mem .version = some 2 ∧
      ∀ who, ((sys.serve [102] [99] (request who)).2.serve [102] [99]
        (request who.other)).2.file [102] .version = some 3 := by
  refine ⟨by decide, by decide, by decide, by decide, by decide, fun who => ?_⟩
  cases who <;> decide

end System

end Squid
