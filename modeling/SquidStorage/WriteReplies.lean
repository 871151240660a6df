/-
What the replies to CREATE, UPDATE and DELETE stand for.

A CREATE that misses its quorum is rolled back by deleting the file on the datanodes
that ACKed; one that had a copy before has none afterwards.  An UPDATE that is committed
under a negative version is answered as if it had been rejected.  A DELETE is answered
with an ACK whether or not it has been carried out, and not at all when the server's own
`fs::remove` throws.

* `nodes_rejected` — what a rejected create leaves at each datanode;
* `rejected_create_keeps_iff` — exactly when the store is as before;
* `update_reply_iff` — exactly when the reply to an update says what has been stored;
* `delete_reply_iff` — exactly when the reply to a delete says whether the file is gone.
-/
import SquidStorage.ClientVersions
import SquidStorage.Deletions

open BigEndian

namespace Squid

/-! ### Rejected creates -/

namespace WriteAnswer

/-- A datanode's copy once the rollback has been answered: it goes to those that ACKed. -/
def rolledBack (file : StoredFile) (before : Option StoredFile) (rollback : DeleteAnswer)
    (a : WriteAnswer) : Option StoredFile :=
  if a.acks && rollback.deletes then none else a.effect file before

/-- The condition on a datanode: one that has removed its copy had none, and one that
has kept the file had the same. -/
def Undone (file : StoredFile) (before : Option StoredFile) (rollback : DeleteAnswer) :
    WriteAnswer → Prop
  | .dead | .refused => True
  | .dropped => before = none
  | .ackLost => before = some file
  | .acked => before = if rollback.deletes then none else some file

theorem rolledBack_eq_iff (file : StoredFile) (before : Option StoredFile)
    (rollback : DeleteAnswer) (a : WriteAnswer) :
    a.rolledBack file before rollback = before ↔ a.Undone file before rollback := by
  cases a with
  | dead | refused => simp [rolledBack, Undone, acks, effect]
  | ackLost | dropped =>
    simp only [rolledBack, Undone, acks, effect, Bool.false_and, Bool.false_eq_true, if_false]
    exact eq_comm
  | acked =>
    simp only [rolledBack, Undone, acks, effect, Bool.true_and]
    exact eq_comm

end WriteAnswer

section Deletes

variable {answer : Bytes → SessionId → DeleteAnswer} {p n : Bytes}
  {targets : List (Bytes × SessionId)} {nodes : DataNodes}

/-- A datanode that deletes has no copy afterwards. -/
theorem deleteAll_of_deletes {session : SessionId} (hmem : (n, session) ∈ targets)
    (hdel : (answer n session).deletes = true) : deleteAll answer p targets nodes n p = none := by
  rw [← Option.not_isSome_iff_eq_none, System.isSome_deleteAll_iff]
  rintro ⟨-, hnone⟩
  rw [hnone session hmem] at hdel
  simp at hdel

/-- A datanode that does not has the one it had. -/
theorem deleteAll_of_keeps
    (hkeeps : ∀ session, (n, session) ∈ targets → (answer n session).deletes = false) :
    deleteAll answer p targets nodes n p = nodes n p := by
  have hsome := System.isSome_deleteAll_iff answer p n targets nodes
  cases hleft : deleteAll answer p targets nodes n p with
  | some file => exact (deleteAll_copies _ _ _ _ hleft).1.symm
  | none =>
    rw [hleft, Option.isSome_none, Bool.false_eq_true, false_iff, not_and] at hsome
    exact (Option.not_isSome_iff_eq_none.mp fun hcopy => hsome hcopy hkeeps).symm

end Deletes

namespace System

variable {sys : System} {answer : Bytes → SessionId → WriteAnswer}
  {rollback : Bytes → SessionId → DeleteAnswer} {filePath : Bytes} {version : Int32}
  {origin fileData : Bytes}

theorem not_commits_of_rejected
    (h : (sys.propagateCreateFile answer rollback filePath version origin fileData).1 = false) :
    ¬ sys.createCommits filePath version fileData answer = true := by
  intro hcommit
  rw [(create_of_commits sys answer rollback filePath version origin fileData hcommit).1] at h
  simp at h

/-- **What a rejected create leaves** at a datanode. -/
theorem nodes_rejected
    (h : (sys.propagateCreateFile answer rollback filePath version origin fileData).1 = false)
    (n : Bytes) :
    (sys.propagateCreateFile answer rollback filePath version origin fileData).2.1.nodes n filePath
      = sys.rm.dataNodeEndpointMap[n]?.elim (sys.nodes n filePath) fun session =>
          (answer n session).rolledBack ⟨fileData, version⟩ (sys.nodes n filePath)
            (rollback n session) := by
  rw [(create_of_rejected sys answer rollback filePath version origin fileData
    (not_commits_of_rejected h)).2]
  dsimp only
  rw [fanOut_ackedNodes]
  have hmem : ∀ session, (n, session) ∈ sys.rm.dataNodeEndpointMap.toList
      ↔ sys.rm.dataNodeEndpointMap[n]? = some session :=
    fun session => Std.ExtTreeMap.mem_toList_iff_getElem?_eq_some
  cases hget : sys.rm.dataNodeEndpointMap[n]? with
  | none =>
    -- a datanode that is not registered is asked for nothing
    have hnot : ∀ session, (n, session) ∉ sys.rm.dataNodeEndpointMap.toList := by
      intro session hin
      rw [hmem, hget] at hin
      simp at hin
    have hnames : n ∉ sys.rm.dataNodeEndpointMap.toList.map Prod.fst := by
      intro hin
      obtain ⟨e, he, rfl⟩ := List.mem_map.mp hin
      exact hnot e.2 he
    rw [deleteAll_of_keeps fun session hin => absurd (List.mem_of_mem_filter hin) (hnot session),
      fanOut_nodes_of_ne answer _ _ fun _ => hnames]
    rfl
  | some session =>
    have hin := (hmem session).mpr hget
    have hfan := fanOut_nodes_of_mem answer filePath ⟨fileData, version⟩ sys.nodes
      (nodup_keys_toList _) hin
    rw [Option.elim_some, WriteAnswer.rolledBack]
    by_cases hboth : ((answer n session).acks && (rollback n session).deletes) = true
    · obtain ⟨hack, hdel⟩ := Bool.and_eq_true_iff.mp hboth
      rw [if_pos hboth]
      exact deleteAll_of_deletes (List.mem_filter.mpr ⟨hin, hack⟩) hdel
    · rw [if_neg hboth, ← hfan]
      refine deleteAll_of_keeps fun other ho => ?_
      obtain ⟨hother, hack⟩ := List.mem_filter.mp ho
      rw [hmem, hget] at hother
      obtain rfl := Option.some.inj hother
      rw [Bool.and_eq_true_iff, not_and] at hboth
      exact Bool.eq_false_iff.mpr (hboth hack)

/-- **A rejected create** leaves the store as it was exactly when every registered
datanode had no copy to lose and keeps none that it did not have. -/
theorem rejected_create_keeps_iff
    (h : (sys.propagateCreateFile answer rollback filePath version origin fileData).1 = false) :
    let after := (sys.propagateCreateFile answer rollback filePath version origin fileData).2.1
    (after.rm.persistedVersionMap = sys.rm.persistedVersionMap ∧
        after.rm.dataNodeReplicationMap = sys.rm.dataNodeReplicationMap ∧
        after.rm.fileLockMap = sys.rm.fileLockMap ∧
        ∀ n, after.nodes n filePath = sys.nodes n filePath)
      ↔ ∀ n session, sys.rm.dataNodeEndpointMap[n]? = some session →
        (answer n session).Undone ⟨fileData, version⟩ (sys.nodes n filePath)
          (rollback n session) := by
  intro after
  have hrm : after.rm = sys.rm := by
    rw [show after = _ from (create_of_rejected sys answer rollback filePath version origin fileData
      (not_commits_of_rejected h)).2]
  rw [hrm]
  constructor
  · rintro ⟨-, -, -, hnodes⟩ n session hget
    have hn := hnodes n
    rw [show after.nodes n filePath = _ from nodes_rejected h n, hget] at hn
    exact (WriteAnswer.rolledBack_eq_iff _ _ _ _).mp hn
  · intro hundone
    refine ⟨rfl, rfl, rfl, fun n => ?_⟩
    rw [show after.nodes n filePath = _ from nodes_rejected h n]
    cases hget : sys.rm.dataNodeEndpointMap[n]? with
    | none => rfl
    | some session => exact (WriteAnswer.rolledBack_eq_iff _ _ _ _).mpr (hundone n session hget)

/-- Two datanodes and no file, with replication factor 2. -/
def twoNodes : System :=
  ({ rm := ReplicationManager.start 2 none, nodes := fun _ _ => none } : System).after
    [.register [100] 0 ∅ [], .register [101] 1 ∅ []]

/-- One datanode takes the file and the other refuses it. -/
def oneRefuses (name : Bytes) (_ : SessionId) : WriteAnswer :=
  if name = [100] then .acked else .refused

/-- The create of a new file is rejected, and nothing of it is left. -/
theorem rejected_create_keeps_new :
    let result := twoNodes.propagateCreateFile oneRefuses (fun _ _ => .acked) [97] 1 [99] [120]
    result.1 = false ∧ (result.2.1.rm.persistedVersionMap = twoNodes.rm.persistedVersionMap ∧
      result.2.1.rm.dataNodeReplicationMap = twoNodes.rm.dataNodeReplicationMap ∧
      result.2.1.rm.fileLockMap = twoNodes.rm.fileLockMap ∧
      ∀ n, result.2.1.nodes n [97] = twoNodes.nodes n [97]) := by
  have hreject : (twoNodes.propagateCreateFile oneRefuses (fun _ _ => .acked) [97] 1 [99]
      [120]).1 = false := by decide
  refine ⟨hreject, (rejected_create_keeps_iff hreject).mpr fun n session _ => ?_⟩
  by_cases hn : n = [100]
  · simp only [oneRefuses, if_pos hn]
    rfl
  · simp only [oneRefuses, if_neg hn]
    trivial

/-- The file is created, and then a second CREATE of it is rejected: the datanode that
took it has lost the committed copy. -/
theorem rejected_create_drops_copy :
    let sys := twoNodes.step (.create [97] 1 [99] [120] (fun _ _ => .acked) (fun _ _ => .acked))
    let result := sys.propagateCreateFile oneRefuses (fun _ _ => .acked) [97] 2 [99] [121]
    result.1 = false ∧ [100] ∈ result.2.1.rm.holders [97] ∧
      sys.nodes [100] [97] = some ⟨[120], 1⟩ ∧ result.2.1.nodes [100] [97] = none := by
  decide

/-! ### Replies to UPDATE_FILE -/

/-- The next version is not negative. -/
theorem zero_le_add_one_iff (v : Int32) : 0 ≤ v + 1 ↔ -1 ≤ v ∧ v ≠ 2147483647 := by
  have hlt := Int32.toInt_lt v
  have hle := Int32.le_toInt v
  have hone : (1 : Int32).toInt = 1 := by decide
  have hzero : (0 : Int32).toInt = 0 := by decide
  have hneg : (-1 : Int32).toInt = -1 := by decide
  have hmax : (2147483647 : Int32).toInt = 2147483647 := by decide
  rw [Int32.le_iff_toInt_le, Int32.le_iff_toInt_le, Int32.toInt_add, Ne, ← Int32.toInt_inj, hone,
    hzero, hneg, hmax, Int.bmod_def]
  split <;> omega

/-- The version that the reply carries. -/
def replyVersion (reply : Response) : Int32 := toInt32 (reply.message.getUint32 .fileVersion 0)

theorem replyVersion_version (isAck : Bool) (v : Int32) :
    replyVersion (.version isAck v) = v := by
  rw [replyVersion, Response.getUint32_version, toInt32_toUint32]

/-- The UPDATE_FILE branch of `handleClientRequest`: an upload that is not received is
answered with a NACK and goes no further. -/
def handleUpdateFile (sys : System) (processName : Bytes) (answers : CallAnswers)
    (filePath : Bytes) (seen : Int32) (upload : Option Bytes) : System × Response :=
  upload.elim (sys, .ack false) fun fileData =>
    sys.handleClientRequest processName answers (.updateFile filePath seen fileData)

theorem reply_of_received (sys : System) (processName : Bytes) (answers : CallAnswers)
    (filePath : Bytes) (seen : Int32) (fileData : Bytes) :
    let result := sys.handleClientRequest processName answers (.updateFile filePath seen fileData)
    let old := sys.rm.persistedVersionMap[filePath]?.getD seen
    ((sys.updateCommits filePath seen fileData answers.write = true →
          result.2.message.isAck = true ∧
            result.1.rm.persistedVersionMap[filePath]? = some (replyVersion result.2)) ∧
        (result.2.message.isAck = false →
          result.1.rm.persistedVersionMap = sys.rm.persistedVersionMap))
      ↔ (sys.updateCommits filePath seen fileData answers.write = true →
          -1 ≤ old ∧ old ≠ 2147483647) := by
  intro result old
  have hnew : sys.newVersion filePath seen = old + 1 := rfl
  have hmap := persistedVersionMap_update sys answers.write filePath seen processName fileData
  by_cases hcommit : sys.updateCommits filePath seen fileData answers.write = true
  · have hupdate := (update_of_commits sys answers.write filePath seen processName fileData
      hcommit).1
    rw [if_pos hcommit] at hmap
    have hstored : result.1.rm.persistedVersionMap[filePath]?
        = some (sys.newVersion filePath seen) := by
      show (sys.propagateUpdateFile answers.write filePath seen processName
        fileData).2.1.rm.persistedVersionMap[filePath]? = _
      rw [hmap, Std.ExtTreeMap.getElem?_insert_self]
    have hreply : result.2 = if 0 ≤ sys.newVersion filePath seen
        then .version true (sys.newVersion filePath seen) else .ack false := by
      show (if 0 ≤ (sys.propagateUpdateFile answers.write filePath seen processName fileData).1
        then _ else _) = _
      rw [hupdate]
    rw [hstored, hreply, ← zero_le_add_one_iff, ← hnew]
    by_cases hpos : 0 ≤ sys.newVersion filePath seen
    · rw [if_pos hpos, replyVersion_version, Response.isAck_version]
      exact ⟨fun _ _ => hpos, fun _ => ⟨fun _ => ⟨rfl, rfl⟩, fun h => by simp at h⟩⟩
    · -- committed, and answered with a NACK
      rw [if_neg hpos]
      exact ⟨fun h _ => absurd (h.1 hcommit).1 (by decide), fun h => absurd (h hcommit) hpos⟩
  · rw [if_neg hcommit] at hmap
    exact ⟨fun _ h => absurd h hcommit, fun _ => ⟨fun h => absurd h hcommit, fun _ => hmap⟩⟩

/-- **Replies to UPDATE_FILE.**  A committed update is acknowledged with the version that
has been stored, and a NACK means that nothing has been stored, exactly when the version
a committed update starts from is neither below `-1` nor the largest `int`. -/
theorem update_reply_iff (sys : System) (processName : Bytes) (answers : CallAnswers)
    (filePath : Bytes) (seen : Int32) (upload : Option Bytes) :
    let result := sys.handleUpdateFile processName answers filePath seen upload
    let commits := ∃ fileData, upload = some fileData ∧
      sys.updateCommits filePath seen fileData answers.write = true
    let old := sys.rm.persistedVersionMap[filePath]?.getD seen
    ((commits → result.2.message.isAck = true ∧
          result.1.rm.persistedVersionMap[filePath]? = some (replyVersion result.2)) ∧
        (result.2.message.isAck = false →
          result.1.rm.persistedVersionMap = sys.rm.persistedVersionMap))
      ↔ (commits → -1 ≤ old ∧ old ≠ 2147483647) := by
  intro result commits old
  cases upload with
  | none =>
    have hnot : ¬ commits := fun ⟨_, h, _⟩ => absurd h (by simp)
    exact ⟨fun _ h => absurd h hnot, fun _ => ⟨fun h => absurd h hnot, fun _ => rfl⟩⟩
  | some fileData =>
    have hcommits : commits ↔ sys.updateCommits filePath seen fileData answers.write = true := by
      constructor
      · rintro ⟨_, h, hcommit⟩
        exact Option.some.inj h ▸ hcommit
      · exact fun hcommit => ⟨fileData, rfl, hcommit⟩
    rw [hcommits]
    exact reply_of_received sys processName answers filePath seen fileData

/-- A file is created with the largest version, and then updated: the update is committed
as version `-2147483648`, and its client is told that it has been rejected. -/
theorem update_committed_and_rejected :
    let sys := twoNodes.step
      (.create [97] 2147483647 [99] [120] (fun _ _ => .acked) (fun _ _ => .acked))
    let answers : CallAnswers := ⟨fun _ _ => .acked, fun _ _ => .acked, fun _ _ => .acked, []⟩
    let result := sys.handleUpdateFile [99] answers [97] 2147483647 (some [121])
    sys.updateCommits [97] 2147483647 [121] answers.write = true ∧
      result.2.message.isAck = false ∧
      sys.rm.persistedVersionMap[([97] : Bytes)]? = some 2147483647 ∧
      result.1.rm.persistedVersionMap[([97] : Bytes)]? = some (-2147483648) := by
  decide

/-! ### Replies to DELETE_FILE -/

/-- The file is in none of the server's maps. -/
def Unlisted (rm : ReplicationManager) (filePath : Bytes) : Prop :=
  filePath ∉ rm.persistedVersionMap ∧ filePath ∉ rm.dataNodeReplicationMap ∧
    filePath ∉ rm.fileLockMap

theorem unlisted_eraseFile (rm : ReplicationManager) (filePath : Bytes) :
    Unlisted (rm.eraseFile filePath) filePath := by
  have hself : ∀ {α : Type} (m : StrMap α), filePath ∉ m.erase filePath := by
    intro α m
    rw [Std.ExtTreeMap.mem_erase]
    simp
  exact ⟨hself _, hself _, hself _⟩

/-- The `DELETE_FILE` branch of `Server::handleClientRequest`, with what the server's own
`fs::remove` throws: the exception leaves the handler, and nothing is answered. -/
def handleDeleteFile (sys : System) (processName : Bytes) (answers : CallAnswers)
    (removeError : Option String) (filePath : Bytes) : System × Option Response :=
  let deleted := sys.propagateDeleteFileThrowing removeError answers.delete filePath processName
  (deleted.1, match deleted.2.2 with
    | none => some (.ack true)
    | some _ => none)

/-- Where nothing is thrown it is the branch of `handleClientRequest`. -/
theorem handleDeleteFile_none (sys : System) (processName : Bytes) (answers : CallAnswers)
    (filePath : Bytes) :
    let handled := sys.handleClientRequest processName answers (.deleteFile filePath)
    sys.handleDeleteFile processName answers none filePath = (handled.1, some handled.2) := by
  rw [handleDeleteFile, propagateDeleteFileThrowing_none]
  rfl

/-- A delete that is not carried out has a live holder. -/
theorem listed_of_not_commits {sys : System} {filePath : Bytes}
    {answer : Bytes → SessionId → DeleteAnswer}
    (h : ¬ sys.deleteCommits filePath answer = true) :
    filePath ∈ sys.rm.dataNodeReplicationMap := by
  by_contra habsent
  have hnone : (sys.rm.holders filePath).toList = [] := by
    rw [ReplicationManager.holders, Std.ExtTreeMap.getElem?_eq_none habsent]
    simp
  refine h ?_
  simp [deleteCommits, hnone]

/-- **Replies to DELETE_FILE.**  The ACK means that the file is gone from the server, and
a NACK that nothing has changed, exactly when the datanodes' answers let the delete be
carried out and the server's own `fs::remove` does not throw. -/
theorem delete_reply_iff (sys : System) (processName : Bytes) (answers : CallAnswers)
    (removeError : Option String) (filePath : Bytes) :
    let result := sys.handleDeleteFile processName answers removeError filePath
    let replied (isAck : Bool) := ∃ r, result.2 = some r ∧ r.message.isAck = isAck
    ((replied true ↔ Unlisted result.1.rm filePath) ∧
        (replied false →
          result.1.rm.persistedVersionMap = sys.rm.persistedVersionMap ∧
            result.1.rm.dataNodeReplicationMap = sys.rm.dataNodeReplicationMap ∧
            result.1.rm.fileLockMap = sys.rm.fileLockMap ∧
            ∀ n ∈ result.1.rm.holders filePath, (result.1.nodes n filePath).isSome))
      ↔ sys.deleteCommits filePath answers.delete = true ∧ removeError = none := by
  intro result replied
  have hack : ∀ {sys' : System}, result = (sys', some (.ack true)) → replied true := fun h =>
    ⟨_, congrArg Prod.snd h, Response.isAck_ack true⟩
  by_cases hcommit : sys.deleteCommits filePath answers.delete = true
  · have hgone := unlisted_eraseFile sys.rm filePath
    cases herror : removeError with
    | none =>
      have hresult : result = ({ rm := sys.rm.commitDelete filePath
                                 nodes := deleteAll answers.delete filePath
                                   (sys.rm.holders filePath).toList sys.nodes },
          some (.ack true)) := by
        simp only [result, herror, handleDeleteFile, propagateDeleteFileThrowing_none,
          delete_of_commits hcommit]
      refine iff_of_true ⟨iff_of_true (hack hresult) ?_, ?_⟩ ⟨hcommit, rfl⟩
      · rw [hresult]
        exact hgone
      · rintro ⟨r, hr, hnack⟩
        rw [hresult] at hr
        rw [← Option.some.inj hr, Response.isAck_ack] at hnack
        cases hnack
    | some error =>
      -- the maps are erased, and there is no reply
      have hresult : result = ({ rm := sys.rm.eraseFile filePath
                                 nodes := deleteAll answers.delete filePath
                                   (sys.rm.holders filePath).toList sys.nodes }, none) := by
        simp only [result, herror, handleDeleteFile, throwing_of_commits hcommit]
      refine iff_of_false (fun h => ?_) (by simp)
      obtain ⟨r, hr, -⟩ := h.1.mpr (by rw [hresult]; exact hgone)
      rw [hresult] at hr
      cases hr
  · have hresult : result = ({ sys with
        nodes := deleteAll answers.delete filePath (sys.rm.holders filePath).toList sys.nodes },
        some (.ack true)) := by
      simp only [result, handleDeleteFile, throwing_of_rejected hcommit removeError,
        propagateDeleteFileThrowing_none, delete_of_rejected hcommit]
    refine iff_of_false (fun h => ?_) fun h => hcommit h.1
    have hgone := (h.1.mp (hack hresult)).2.1
    rw [hresult] at hgone
    exact hgone (listed_of_not_commits hcommit)

/-- One of two holders does not delete: the client is told that the file is gone, the
server keeps it, and one of the datanodes it lists has no copy. -/
theorem delete_acked_not_done :
    let sys := twoNodes.step (.create [97] 1 [99] [120] (fun _ _ => .acked) (fun _ _ => .acked))
    let answers : CallAnswers := ⟨fun _ _ => .acked, fun _ _ => .acked,
      fun n _ => if n = [100] then .acked else .refused, []⟩
    let result := sys.handleDeleteFile [99] answers none [97]
    result.2.map (·.message.isAck) = some true ∧ [97] ∈ result.1.rm.persistedVersionMap ∧
      [100] ∈ result.1.rm.holders [97] ∧ result.1.nodes [100] [97] = none := by
  decide

end System

end Squid
