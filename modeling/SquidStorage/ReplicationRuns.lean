/-
Sequential runs of the primary: client requests, datanodes that come and go,
and the rebalancing this sets off.

`ServerEvent` lists what can happen and `System.step` what it does.  Every
operation that writes `persistedVersionMap_` is here, so this is where the
version history of a file is settled:

* `versions_monotone_iff` — versions never go back and every committed write
  raises its file exactly when every committed CREATE carries a version above
  the persisted one and no committed UPDATE starts from the largest `int`;
* `create_lowers_version` — a CREATE of an existing file that sets it back.
-/
import SquidStorage.RunningMax
import SquidStorage.WriteQuorum

open BigEndian LastWrite RunningMax

namespace Squid

/-! ### Events -/

/-- What can happen to the primary, with the answers of the datanodes. -/
inductive ServerEvent where
  /-- a CREATE_FILE request -/
  | create (filePath : Bytes) (version : Int32) (origin fileData : Bytes)
      (answer : Bytes → SessionId → WriteAnswer) (rollback : Bytes → SessionId → DeleteAnswer)
  /-- an UPDATE_FILE request -/
  | update (filePath : Bytes) (clientSeenVersion : Int32) (origin fileData : Bytes)
      (answer : Bytes → SessionId → WriteAnswer)
  /-- a DELETE_FILE request -/
  | delete (filePath origin : Bytes) (answer : Bytes → SessionId → DeleteAnswer)
  /-- a READ_FILE request: it changes nothing -/
  | read (filePath : Bytes) (answer : Bytes → SessionId → ReadAnswer)
  /-- a datanode connects and reports its files -/
  | register (name : Bytes) (session : SessionId) (fileVersionMap : StrMap Int32)
      (replies : List (StrMap Int32))
  /-- a datanode misses its heartbeat and leaves the endpoint map -/
  | loseEndpoint (name : Bytes)
  /-- it leaves the replication map, and its files are rebalanced -/
  | evict (name : Bytes) (answer : System.RebalanceAnswers)

/-- The file that a DELETE_FILE request names. -/
def ServerEvent.deletedPath : ServerEvent → Option Bytes
  | .delete filePath _ _ => some filePath
  | .create .. | .update .. | .read .. | .register .. | .loseEndpoint .. | .evict .. => none

namespace System

def step (sys : System) : ServerEvent → System
  | .create filePath version origin fileData answer rollback =>
    (sys.propagateCreateFile answer rollback filePath version origin fileData).2.1
  | .update filePath clientSeenVersion origin fileData answer =>
    (sys.propagateUpdateFile answer filePath clientSeenVersion origin fileData).2.1
  | .delete filePath origin answer => (sys.propagateDeleteFile answer filePath origin).1
  | .read _ _ => sys
  | .register name session fileVersionMap replies =>
    { sys with rm := sys.rm.acceptDataNode name session fileVersionMap replies }
  | .loseEndpoint name =>
    { sys with rm := { sys.rm with
        dataNodeEndpointMap := sys.rm.dataNodeEndpointMap.erase name } }
  | .evict name answer => sys.eraseFromReplicationMap answer name

/-- The state after a list of events. -/
def after (sys : System) (events : List ServerEvent) : System := events.foldl step sys

/-- The quorum checks of the two writes. -/
def createCommits (sys : System) (filePath : Bytes) (version : Int32) (fileData : Bytes)
    (answer : Bytes → SessionId → WriteAnswer) : Bool :=
  sys.rm.quorum ≤ (fanOut answer filePath ⟨fileData, version⟩
    sys.rm.dataNodeEndpointMap.toList sys.nodes).2.length

@[inherit_doc createCommits]
def updateCommits (sys : System) (filePath : Bytes) (clientSeenVersion : Int32)
    (fileData : Bytes) (answer : Bytes → SessionId → WriteAnswer) : Bool :=
  min sys.rm.quorum (sys.rm.holders filePath).toList.length
    ≤ (fanOut answer filePath ⟨fileData, sys.newVersion filePath clientSeenVersion⟩
      (sys.rm.holders filePath).toList sys.nodes).2.length

/-- The check of `propagateDeleteFile`, which counts the live holders only. -/
def deleteCommits (sys : System) (filePath : Bytes)
    (answer : Bytes → SessionId → DeleteAnswer) : Bool :=
  let datanodes := (sys.rm.holders filePath).toList
  let total := (datanodes.filter fun d => answer d.1 d.2 ≠ .dead).length
  let acks := (datanodes.filter fun d => answer d.1 d.2 = .acked).length
  !(0 < total && acks < min sys.rm.quorum total)

/-- The file that an event writes, if it is a write that reaches its quorum. -/
def committedPath (sys : System) : ServerEvent → Option Bytes
  | .create filePath version _ fileData answer _ =>
    if sys.createCommits filePath version fileData answer then some filePath else none
  | .update filePath clientSeenVersion _ fileData answer =>
    if sys.updateCommits filePath clientSeenVersion fileData answer then some filePath else none
  | .delete .. | .read .. | .register .. | .loseEndpoint .. | .evict .. => none

end System

/-! ### What the operations leave alone -/

namespace ReplicationManager

variable (rm : ReplicationManager)

@[simp] theorem persistedVersionMap_persistState :
    rm.persistState.persistedVersionMap = rm.persistedVersionMap := rfl

@[simp] theorem persistedVersionMap_setFileVersion (p : Bytes) (v : Int32) :
    (rm.setFileVersion p v).persistedVersionMap = rm.persistedVersionMap := rfl

@[simp] theorem persistedVersionMap_addHolder (p n : Bytes) (s : SessionId) :
    (rm.addHolder p n s).persistedVersionMap = rm.persistedVersionMap := rfl

/-- Adding holders writes the replication map only. -/
theorem addHolders_eq (p : Bytes) (nodes : List (Bytes × SessionId)) :
    rm.addHolders p nodes
      = { rm with dataNodeReplicationMap := (rm.addHolders p nodes).dataNodeReplicationMap } := by
  induction nodes generalizing rm with
  | nil => rfl
  | cons node nodes ih => exact ih (rm.addHolder p node.1 node.2)

@[simp] theorem persistedVersionMap_addHolders (p : Bytes) (nodes : List (Bytes × SessionId)) :
    (rm.addHolders p nodes).persistedVersionMap = rm.persistedVersionMap := by
  rw [addHolders_eq]

@[simp] theorem persistedVersionMap_commitCreate (p : Bytes) (v : Int32)
    (nodes : List (Bytes × SessionId)) :
    (rm.commitCreate p v nodes).persistedVersionMap = rm.persistedVersionMap.insert p v := by
  simp [commitCreate]

@[simp] theorem persistedVersionMap_commitUpdate (p : Bytes) (v : Int32) :
    (rm.commitUpdate p v).persistedVersionMap = rm.persistedVersionMap.insert p v := by
  simp [commitUpdate]

/-- Building the lock map writes the lock table and the version file only. -/
theorem buildFileLockMap_frame (replies : List (StrMap Int32)) :
    ∃ locks text, rm.buildFileLockMap replies
      = { rm with fileLockMap := locks, versionFile := text } := by
  -- the two loops keep to these fields file by file
  let Framed := fun after : ReplicationManager => ∃ locks text,
    after = { rm with fileLockMap := locks, versionFile := text }
  refine List.foldlRecOn (motive := Framed) replies _ ⟨_, _, rfl⟩ fun before hbefore reply _ => ?_
  refine List.foldlRecOn (motive := Framed) reply.toList _ hbefore ?_
  rintro _ ⟨locks, text, rfl⟩ file -
  simp only [buildFileLock]
  split <;> exact ⟨_, _, rfl⟩

@[simp] theorem persistedVersionMap_buildFileLockMap (replies : List (StrMap Int32)) :
    (rm.buildFileLockMap replies).persistedVersionMap = rm.persistedVersionMap := by
  obtain ⟨locks, text, hframe⟩ := rm.buildFileLockMap_frame replies
  rw [hframe]

/-- Registering files writes the two maps and the version file only. -/
theorem registerFiles_frame (name : Bytes) (session : SessionId) (files : List (Bytes × Int32)) :
    ∃ holders versions text, files.foldl (registerFile name session) rm
      = { rm with dataNodeReplicationMap := holders, persistedVersionMap := versions
                  versionFile := text } := by
  refine List.foldlRecOn (motive := fun after => ∃ holders versions text, after
    = { rm with dataNodeReplicationMap := holders, persistedVersionMap := versions
                versionFile := text }) files _ ?_ ?_
  · exact ⟨_, _, _, rfl⟩
  · rintro _ ⟨holders, versions, text, rfl⟩ file -
    simp only [registerFile]
    split <;> exact ⟨_, _, _, rfl⟩

/-! A registration raises the versions of the reported files. -/

/-- The versions that a report gives one path. -/
def versionsOf (p : Bytes) (files : List (Bytes × Int32)) : List Int32 :=
  files.filterMap fun file => if file.1 = p then some file.2 else none

theorem mem_versionsOf {p : Bytes} {files : List (Bytes × Int32)} {v : Int32} :
    v ∈ versionsOf p files ↔ (p, v) ∈ files := by
  simp only [versionsOf, List.mem_filterMap, Option.ite_none_right_eq_some, Option.some.injEq]
  constructor
  · rintro ⟨file, hfile, rfl, rfl⟩
    exact hfile
  · intro h
    exact ⟨(p, v), h, rfl, rfl⟩

theorem getElem?_registerFile (name : Bytes) (session : SessionId) (file : Bytes × Int32)
    (p : Bytes) :
    (registerFile name session rm file).persistedVersionMap[p]?
      = if file.1 = p then raise 0 rm.persistedVersionMap[p]? file.2
        else rm.persistedVersionMap[p]? := by
  by_cases hbest : rm.persistedVersionMap[file.1]?.getD 0 < file.2
  · have hmap : (registerFile name session rm file).persistedVersionMap
        = rm.persistedVersionMap.insert file.1 file.2 := by
      simp only [registerFile]
      split
      · rfl
      · rename_i hkeep
        exact absurd hbest hkeep
    rw [hmap, Std.ExtTreeMap.getElem?_insert]
    by_cases hp : file.1 = p
    · subst hp
      simp [raise, hbest]
    · simp [hp]
  · have hmap : (registerFile name session rm file).persistedVersionMap
        = rm.persistedVersionMap := by
      simp only [registerFile]
      split
      · rename_i hraise
        exact absurd hraise hbest
      · rfl
    rw [hmap]
    by_cases hp : file.1 = p
    · subst hp
      simp [raise, hbest]
    · simp [hp]

theorem getElem?_registerFiles (name : Bytes) (session : SessionId) (files : List (Bytes × Int32))
    (p : Bytes) :
    (files.foldl (registerFile name session) rm).persistedVersionMap[p]?
      = raiseAll 0 rm.persistedVersionMap[p]? (versionsOf p files) := by
  induction files generalizing rm with
  | nil => rfl
  | cons file files ih =>
    rw [List.foldl_cons, ih, getElem?_registerFile]
    by_cases hp : file.1 = p
    · simp [versionsOf, hp, raiseAll]
    · simp [versionsOf, hp]

/-- **A registration** takes over the version it reports for a path if that is the
highest one so far, an unknown path counting as version 0. -/
theorem getElem?_registerDataNodeFiles (name : Bytes) (session : SessionId)
    (fileVersionMap : StrMap Int32) (p : Bytes) :
    (rm.registerDataNodeFiles name session fileVersionMap).persistedVersionMap[p]?
      = raiseAll 0 rm.persistedVersionMap[p]? fileVersionMap[p]?.toList := by
  rw [registerDataNodeFiles, persistedVersionMap_persistState, getElem?_registerFiles]
  refine raiseAll_congr 0 _ fun v => ?_
  rw [mem_versionsOf, Std.ExtTreeMap.mem_toList_iff_getElem?_eq_some, Option.mem_toList]

theorem getElem?_acceptDataNode (name : Bytes) (session : SessionId)
    (fileVersionMap : StrMap Int32) (replies : List (StrMap Int32)) (p : Bytes) :
    (rm.acceptDataNode name session fileVersionMap replies).persistedVersionMap[p]?
      = raiseAll 0 rm.persistedVersionMap[p]? fileVersionMap[p]?.toList := by
  rw [acceptDataNode, persistedVersionMap_buildFileLockMap]
  exact getElem?_registerDataNodeFiles _ name session fileVersionMap p

end ReplicationManager

namespace System

/-- A rebalance writes the replication map and the version file only. -/
theorem rebalance_frame (answer : RebalanceAnswers) (sys : System)
    (target : Bytes × StrMap SessionId) :
    ∃ holders text, (rebalanceFileReplication answer sys target).rm
      = { sys.rm with dataNodeReplicationMap := holders, versionFile := text } := by
  simp only [rebalanceFileReplication]
  split
  · exact ⟨_, _, rfl⟩
  · split
    · split
      · exact ⟨_, _, rfl⟩
      · rw [ReplicationManager.addHolders_eq]
        exact ⟨_, _, rfl⟩
    · exact ⟨_, _, rfl⟩

theorem persistedVersionMap_rebalance (answer : RebalanceAnswers) (sys : System)
    (target : Bytes × StrMap SessionId) :
    (rebalanceFileReplication answer sys target).rm.persistedVersionMap
      = sys.rm.persistedVersionMap := by
  obtain ⟨holders, text, hframe⟩ := rebalance_frame answer sys target
  rw [hframe]

/-- An eviction, too. -/
theorem evict_frame (sys : System) (answer : RebalanceAnswers) (name : Bytes) :
    ∃ holders text, (sys.eraseFromReplicationMap answer name).rm
      = { sys.rm with dataNodeReplicationMap := holders, versionFile := text } := by
  refine List.foldlRecOn (motive := fun after : System => ∃ holders text, after.rm
    = { sys.rm with dataNodeReplicationMap := holders, versionFile := text })
    (rebalanceTargets sys.rm name) _ ⟨_, _, rfl⟩ ?_
  rintro before ⟨holders, text, hbefore⟩ target -
  obtain ⟨holders', text', hframe⟩ := rebalance_frame answer before target
  rw [hframe, hbefore]
  exact ⟨_, _, rfl⟩

/-- No file is rebalanced twice in one eviction. -/
theorem rebalanceTargets_distinct (rm : ReplicationManager) (name : Bytes) :
    (rebalanceTargets rm name).Pairwise fun t t' => t.1 ≠ t'.1 := by
  have hkeys : (rm.dataNodeReplicationMap.toList.filter fun e => e.2.contains name).Pairwise
      fun e e' => e.1 ≠ e'.1 :=
    (List.pairwise_map.mp (nodup_keys_toList rm.dataNodeReplicationMap)).filter _
  refine hkeys.filterMap _ fun e e' hne t ht t' ht' => ?_
  have hfst : ∀ {e t : Bytes × StrMap SessionId}, (if (e.2.erase name).size < rm.quorum
      then some (e.1, e.2.erase name) else none) = some t → t.1 = e.1 := by
    intro e t h
    split at h
    · rw [← Option.some.inj h]
    · simp at h
  rw [hfst ht, hfst ht']
  exact hne

@[simp] theorem persistedVersionMap_eraseFromReplicationMap (sys : System)
    (answer : RebalanceAnswers) (name : Bytes) :
    (sys.eraseFromReplicationMap answer name).rm.persistedVersionMap
      = sys.rm.persistedVersionMap := by
  obtain ⟨holders, text, hframe⟩ := evict_frame sys answer name
  rw [hframe]

/-! ### One step -/

section Writes

variable (sys : System) (answer : Bytes → SessionId → WriteAnswer)
  (rollback : Bytes → SessionId → DeleteAnswer) (filePath : Bytes) (version seen : Int32)
  (origin fileData : Bytes)

theorem create_of_commits (h : sys.createCommits filePath version fileData answer = true) :
    let datanodes := sys.rm.dataNodeEndpointMap.toList
    let fan := fanOut answer filePath ⟨fileData, version⟩ datanodes sys.nodes
    (sys.propagateCreateFile answer rollback filePath version origin fileData).1 = true ∧
      (sys.propagateCreateFile answer rollback filePath version origin fileData).2.1
        = { rm := sys.rm.commitCreate filePath version fan.2, nodes := fan.1 } := by
  rw [createCommits, decide_eq_true_eq] at h
  simp only [propagateCreateFile, if_neg (Nat.not_lt.mpr h), and_self]

theorem create_of_rejected (h : ¬ sys.createCommits filePath version fileData answer = true) :
    let datanodes := sys.rm.dataNodeEndpointMap.toList
    let fan := fanOut answer filePath ⟨fileData, version⟩ datanodes sys.nodes
    (sys.propagateCreateFile answer rollback filePath version origin fileData).1 = false ∧
      (sys.propagateCreateFile answer rollback filePath version origin fileData).2.1
        = { sys with nodes := deleteAll rollback filePath fan.2 fan.1 } := by
  rw [createCommits, decide_eq_true_eq] at h
  simp only [propagateCreateFile, if_pos (Nat.lt_of_not_le h), and_self]

theorem update_of_commits (h : sys.updateCommits filePath seen fileData answer = true) :
    let version := sys.newVersion filePath seen
    let fan := fanOut answer filePath ⟨fileData, version⟩ (sys.rm.holders filePath).toList sys.nodes
    (sys.propagateUpdateFile answer filePath seen origin fileData).1 = version ∧
      (sys.propagateUpdateFile answer filePath seen origin fileData).2.1
        = { rm := sys.rm.commitUpdate filePath version, nodes := fan.1 } := by
  rw [updateCommits, decide_eq_true_eq] at h
  simp only [propagateUpdateFile, if_neg (Nat.not_lt.mpr h), and_self]

theorem update_of_rejected (h : ¬ sys.updateCommits filePath seen fileData answer = true) :
    let version := sys.newVersion filePath seen
    let fan := fanOut answer filePath ⟨fileData, version⟩ (sys.rm.holders filePath).toList sys.nodes
    (sys.propagateUpdateFile answer filePath seen origin fileData).1 = -1 ∧
      (sys.propagateUpdateFile answer filePath seen origin fileData).2.1
        = { sys with nodes := fan.1 } := by
  rw [updateCommits, decide_eq_true_eq] at h
  simp only [propagateUpdateFile, if_pos (Nat.lt_of_not_le h), and_self]

theorem delete_of_commits {sys : System} {filePath : Bytes}
    {answer : Bytes → SessionId → DeleteAnswer} (h : sys.deleteCommits filePath answer = true)
    (origin : Bytes) :
    sys.propagateDeleteFile answer filePath origin
      = ({ rm := sys.rm.commitDelete filePath
           nodes := deleteAll answer filePath (sys.rm.holders filePath).toList sys.nodes },
        pushOthers sys.rm origin (.pushDeleteFile filePath) ++ [.delta 1 filePath 0 []]) := by
  simp only [deleteCommits, Bool.not_eq_true', Bool.and_eq_false_iff, decide_eq_false_iff_not,
    ← not_and_or] at h
  simp only [propagateDeleteFile, if_neg h]

theorem delete_of_rejected {sys : System} {filePath : Bytes}
    {answer : Bytes → SessionId → DeleteAnswer} (h : ¬ sys.deleteCommits filePath answer = true)
    (origin : Bytes) :
    sys.propagateDeleteFile answer filePath origin
      = ({ sys with
            nodes := deleteAll answer filePath (sys.rm.holders filePath).toList sys.nodes }, []) := by
  simp only [deleteCommits, Bool.not_eq_true', Bool.and_eq_false_iff, decide_eq_false_iff_not,
    ← not_and_or, not_not] at h
  simp only [propagateDeleteFile, if_pos h]

/-- A delete that does not throw. -/
theorem propagateDeleteFileThrowing_none (sys : System)
    (answer : Bytes → SessionId → DeleteAnswer) (filePath origin : Bytes) :
    sys.propagateDeleteFileThrowing none answer filePath origin
      = ((sys.propagateDeleteFile answer filePath origin).1,
          (sys.propagateDeleteFile answer filePath origin).2, none) := by
  simp only [propagateDeleteFileThrowing, propagateDeleteFile]
  split <;> rfl

/-- A delete that is not carried out does not come to the point where it throws. -/
theorem throwing_of_rejected {sys : System} {filePath : Bytes}
    {answer : Bytes → SessionId → DeleteAnswer} (h : ¬ sys.deleteCommits filePath answer = true)
    (removeError : Option String) (origin : Bytes) :
    sys.propagateDeleteFileThrowing removeError answer filePath origin
      = sys.propagateDeleteFileThrowing none answer filePath origin := by
  simp only [deleteCommits, Bool.not_eq_true', Bool.and_eq_false_iff, decide_eq_false_iff_not,
    ← not_and_or, not_not] at h
  simp only [propagateDeleteFileThrowing, if_pos h]

theorem throwing_of_commits {sys : System} {filePath : Bytes}
    {answer : Bytes → SessionId → DeleteAnswer} (h : sys.deleteCommits filePath answer = true)
    (error : String) (origin : Bytes) :
    sys.propagateDeleteFileThrowing (some error) answer filePath origin
      = ({ rm := sys.rm.eraseFile filePath
           nodes := deleteAll answer filePath (sys.rm.holders filePath).toList sys.nodes },
        pushOthers sys.rm origin (.pushDeleteFile filePath), some error) := by
  simp only [deleteCommits, Bool.not_eq_true', Bool.and_eq_false_iff, decide_eq_false_iff_not,
    ← not_and_or] at h
  simp only [propagateDeleteFileThrowing, if_neg h]

theorem persistedVersionMap_create :
    (sys.propagateCreateFile answer rollback filePath version origin
        fileData).2.1.rm.persistedVersionMap
      = if sys.createCommits filePath version fileData answer
        then sys.rm.persistedVersionMap.insert filePath version
        else sys.rm.persistedVersionMap := by
  split
  · rename_i hcommit
    rw [(create_of_commits sys answer rollback filePath version origin fileData hcommit).2]
    exact ReplicationManager.persistedVersionMap_commitCreate _ _ _ _
  · rename_i hreject
    rw [(create_of_rejected sys answer rollback filePath version origin fileData hreject).2]

theorem persistedVersionMap_update :
    (sys.propagateUpdateFile answer filePath seen origin fileData).2.1.rm.persistedVersionMap
      = if sys.updateCommits filePath seen fileData answer
        then sys.rm.persistedVersionMap.insert filePath (sys.newVersion filePath seen)
        else sys.rm.persistedVersionMap := by
  split
  · rename_i hcommit
    rw [(update_of_commits sys answer filePath seen origin fileData hcommit).2]
    exact ReplicationManager.persistedVersionMap_commitUpdate _ _ _
  · rename_i hreject
    rw [(update_of_rejected sys answer filePath seen origin fileData hreject).2]

end Writes

end System

/-! ### Versions over time -/

/-- A version has not gone back: `none` is below everything. -/
def VersionLE : Option Int32 → Option Int32 → Prop
  | none, _ => True
  | some _, none => False
  | some v, some u => v ≤ u

/-- A version has been raised, or has been given for the first time. -/
def VersionLT : Option Int32 → Option Int32 → Prop
  | none, some _ => True
  | some v, some u => v < u
  | _, none => False

theorem VersionLE.refl (a : Option Int32) : VersionLE a a := by
  cases a with
  | none => trivial
  | some v => exact Int32.le_refl v

theorem VersionLE.trans {a b c : Option Int32} (hab : VersionLE a b) (hbc : VersionLE b c) :
    VersionLE a c := by
  cases a with
  | none => trivial
  | some v =>
    cases b with
    | none => exact absurd hab id
    | some u =>
      cases c with
      | none => exact absurd hbc id
      | some t => exact Int32.le_trans hab hbc

theorem VersionLT.le {a b : Option Int32} (h : VersionLT a b) : VersionLE a b := by
  cases a with
  | none => trivial
  | some v =>
    cases b with
    | none => exact absurd h id
    | some u => exact Int32.le_of_lt h

theorem versionLT_some_iff (a : Option Int32) (u : Int32) :
    VersionLT a (some u) ↔ ∀ v, a = some v → v < u := by
  cases a with
  | none => simp [VersionLT]
  | some v => simp [VersionLT]

/-- The next version is above the persisted one unless that is the largest `int`. -/
theorem lt_add_one_iff (v : Int32) : v < v + 1 ↔ v ≠ 2147483647 := by
  have hlt := Int32.toInt_lt v
  have hle := Int32.le_toInt v
  have hone : (1 : Int32).toInt = 1 := by decide
  have hmax : (2147483647 : Int32).toInt = 2147483647 := by decide
  rw [Int32.lt_iff_toInt_lt, Int32.toInt_add, Ne, ← Int32.toInt_inj, hone, hmax, Int.bmod_def]
  split <;> omega

namespace System

/-- One step: no version goes back, the deleted file's apart, and the file of a
committed write is raised. -/
def StepGrows (sys : System) (event : ServerEvent) : Prop :=
  (∀ p : Bytes, event.deletedPath ≠ some p →
    VersionLE sys.rm.persistedVersionMap[p]? (sys.step event).rm.persistedVersionMap[p]?) ∧
  ∀ p : Bytes, sys.committedPath event = some p →
    VersionLT sys.rm.persistedVersionMap[p]? (sys.step event).rm.persistedVersionMap[p]?

/-- The condition on a step: a committed CREATE carries a version above the
persisted one, and a committed UPDATE does not start from the largest `int`. -/
def RaisesVersion (sys : System) : ServerEvent → Prop
  | .create filePath version _ fileData answer _ =>
    sys.createCommits filePath version fileData answer →
      ∀ v, sys.rm.persistedVersionMap[filePath]? = some v → v < version
  | .update filePath seen _ fileData answer =>
    sys.updateCommits filePath seen fileData answer →
      sys.rm.persistedVersionMap[filePath]? ≠ some 2147483647
  | .delete .. | .read .. | .register .. | .loseEndpoint .. | .evict .. => True

/-- A write that sets one file to one version. -/
theorem grows_insert_iff (m : StrMap Int32) (filePath : Bytes) (u : Int32) :
    ((∀ p : Bytes, (none : Option Bytes) ≠ some p → VersionLE m[p]? (m.insert filePath u)[p]?) ∧
      ∀ p : Bytes, some filePath = some p → VersionLT m[p]? (m.insert filePath u)[p]?)
      ↔ ∀ v, m[filePath]? = some v → v < u := by
  constructor
  · rintro ⟨-, hlt⟩
    have h := hlt filePath rfl
    rwa [Std.ExtTreeMap.getElem?_insert_self, versionLT_some_iff] at h
  · intro h
    have hlt : VersionLT m[filePath]? (m.insert filePath u)[filePath]? := by
      rwa [Std.ExtTreeMap.getElem?_insert_self, versionLT_some_iff]
    refine ⟨fun p _ => ?_, fun p hp => ?_⟩
    · by_cases hp : filePath = p
      · subst hp
        exact hlt.le
      · rw [Std.ExtTreeMap.getElem?_insert]
        simp only [Std.LawfulEqCmp.compare_eq_iff_eq, hp, if_false]
        exact VersionLE.refl _
    · obtain rfl := Option.some.inj hp
      exact hlt

theorem persistedVersionMap_delete_of_ne (sys : System)
    (answer : Bytes → SessionId → DeleteAnswer) (origin : Bytes) {filePath p : Bytes}
    (hne : filePath ≠ p) :
    (sys.propagateDeleteFile answer filePath origin).1.rm.persistedVersionMap[p]?
      = sys.rm.persistedVersionMap[p]? := by
  simp only [propagateDeleteFile]
  split
  · rfl
  · show (sys.rm.persistedVersionMap.erase filePath)[p]? = _
    rw [Std.ExtTreeMap.getElem?_erase]
    simp [hne]

/-- A registration sets no version back. -/
theorem stepGrows_register (rm : ReplicationManager) (name : Bytes) (session : SessionId)
    (fileVersionMap : StrMap Int32) (replies : List (StrMap Int32)) (p : Bytes) :
    VersionLE rm.persistedVersionMap[p]?
      (rm.acceptDataNode name session fileVersionMap replies).persistedVersionMap[p]? := by
  rw [ReplicationManager.getElem?_acceptDataNode]
  cases rm.persistedVersionMap[p]? with
  | none => trivial
  | some b =>
    obtain ⟨v, hv, hle⟩ := exists_le_raiseAll 0 b fileVersionMap[p]?.toList
    rw [hv]
    exact hle

/-- **One step grows exactly when it meets the condition.** -/
theorem stepGrows_iff (sys : System) (event : ServerEvent) :
    sys.StepGrows event ↔ sys.RaisesVersion event := by
  have hsame : ∀ m : StrMap Int32,
      (∀ p : Bytes, (none : Option Bytes) ≠ some p → VersionLE m[p]? m[p]?) ∧
      ∀ p : Bytes, (none : Option Bytes) = some p → VersionLT m[p]? m[p]? :=
    fun m => ⟨fun p _ => VersionLE.refl _, fun p hp => absurd hp (by simp)⟩
  cases event with
  | create filePath version origin fileData answer rollback =>
    rw [StepGrows, step, persistedVersionMap_create, committedPath, RaisesVersion,
      ServerEvent.deletedPath]
    by_cases hcommit : sys.createCommits filePath version fileData answer
    · rw [if_pos hcommit, if_pos hcommit, grows_insert_iff]
      exact ⟨fun h _ => h, fun h => h hcommit⟩
    · rw [if_neg hcommit, if_neg hcommit]
      exact ⟨fun _ h => absurd h hcommit, fun _ => hsame _⟩
  | update filePath seen origin fileData answer =>
    rw [StepGrows, step, persistedVersionMap_update, committedPath, RaisesVersion,
      ServerEvent.deletedPath]
    by_cases hcommit : sys.updateCommits filePath seen fileData answer
    · rw [if_pos hcommit, if_pos hcommit, grows_insert_iff, newVersion]
      cases hold : sys.rm.persistedVersionMap[filePath]? with
      | none => simp
      | some v => simp [hcommit, lt_add_one_iff]
    · rw [if_neg hcommit, if_neg hcommit]
      exact ⟨fun _ h => absurd h hcommit, fun _ => hsame _⟩
  | delete filePath origin answer =>
    refine ⟨fun _ => trivial, fun _ => ⟨fun p hp => ?_, fun p hp => ?_⟩⟩
    swap
    · simp [committedPath] at hp
    have hne : filePath ≠ p := fun h => hp (congrArg some h)
    rw [step, persistedVersionMap_delete_of_ne sys answer origin hne]
    exact VersionLE.refl _
  | read filePath answer => exact ⟨fun _ => trivial, fun _ => hsame _⟩
  | register name session fileVersionMap replies =>
    refine ⟨fun _ => trivial, fun _ => ⟨fun p _ => ?_, fun p hp => ?_⟩⟩
    swap
    · simp [committedPath] at hp
    exact stepGrows_register sys.rm name session fileVersionMap replies p
  | loseEndpoint name => exact ⟨fun _ => trivial, fun _ => hsame _⟩
  | evict name answer =>
    rw [StepGrows, step, persistedVersionMap_eraseFromReplicationMap]
    exact ⟨fun _ => trivial, fun _ => hsame _⟩

theorem after_concat (sys : System) (events : List ServerEvent) (event : ServerEvent) :
    sys.after (events ++ [event]) = (sys.after events).step event := by
  simp [after]

/-- A stretch of steps that all grow: what holds across it. -/
theorem versionLE_after_append (sys : System) (p : Bytes) (mid : List ServerEvent)
    (pre : List ServerEvent) (hmid : ∀ e ∈ mid, e.deletedPath ≠ some p)
    (hgrow : ∀ l e r, mid = l ++ e :: r → (sys.after (pre ++ l)).StepGrows e) :
    VersionLE (sys.after pre).rm.persistedVersionMap[p]?
      (sys.after (pre ++ mid)).rm.persistedVersionMap[p]? := by
  -- event by event: what has happened goes over from `mid` to `pre`
  induction mid generalizing pre with
  | nil =>
    rw [List.append_nil]
    exact VersionLE.refl _
  | cons event mid ih =>
    have hfirst := (hgrow [] event mid rfl).1 p (hmid event (by simp))
    rw [List.append_nil, ← after_concat] at hfirst
    have hrest := ih (pre ++ [event]) (fun e he => hmid e (by simp [he])) fun l e r hl => by
      have h := hgrow (event :: l) e r (by rw [hl, List.cons_append])
      rwa [List.append_cons] at h
    rw [List.append_assoc, List.singleton_append] at hrest
    exact hfirst.trans hrest

/-- **Versions never go back, and every committed write raises its file, exactly
when every write of the run that reaches its quorum has a version to go up to.** -/
theorem versions_monotone_iff (sys : System) (events : List ServerEvent) :
    ((∀ pre mid post, events = pre ++ mid ++ post → ∀ p : Bytes,
        (∀ e ∈ mid, e.deletedPath ≠ some p) →
        VersionLE (sys.after pre).rm.persistedVersionMap[p]?
          (sys.after (pre ++ mid)).rm.persistedVersionMap[p]?) ∧
      ∀ pre e post, events = pre ++ e :: post → ∀ p : Bytes,
        (sys.after pre).committedPath e = some p →
        VersionLT (sys.after pre).rm.persistedVersionMap[p]?
          (sys.after (pre ++ [e])).rm.persistedVersionMap[p]?)
      ↔ ∀ pre e post, events = pre ++ e :: post → (sys.after pre).RaisesVersion e := by
  constructor
  · -- one event is a stretch of its own
    rintro ⟨hle, hlt⟩ pre e post hsplit
    rw [← stepGrows_iff]
    refine ⟨fun p hp => ?_, fun p hp => ?_⟩
    · rw [← after_concat]
      exact hle pre [e] post (by simp [hsplit]) p (by simpa using hp)
    · rw [← after_concat]
      exact hlt pre e post hsplit p hp
  · intro hraise
    refine ⟨fun pre mid post hsplit p hmid => ?_, fun pre e post hsplit p hp => ?_⟩
    · refine versionLE_after_append sys p mid pre hmid fun l e r hl => ?_
      rw [stepGrows_iff]
      exact hraise (pre ++ l) e (r ++ post) (by simp [hsplit, hl])
    · rw [after_concat]
      exact ((stepGrows_iff _ e).mpr (hraise pre e post hsplit)).2 p hp

/-- With one datanode, a CREATE of `a` with version 3 and then one with version 1
on the wire: both are committed, and the second sets the file back to 1. -/
theorem create_lowers_version :
    let sys : System := { rm := ReplicationManager.start 1 none, nodes := fun _ _ => none }
    let create (version : Int32) : ServerEvent :=
      .create [97] version [99] [120] (fun _ _ => .acked) (fun _ _ => .acked)
    let pre := [.register [100] 0 ∅ [], create 3]
    (sys.after pre).committedPath (create 1) = some [97] ∧
      (sys.after pre).rm.persistedVersionMap[([97] : Bytes)]? = some 3 ∧
      (sys.after (pre ++ [create 1])).rm.persistedVersionMap[([97] : Bytes)]? = some 1 := by
  decide

end System

end Squid
