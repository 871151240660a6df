/-
The version map of a client, the version map of the server, and what is on the way
between them.

`Client::versions_` is written by the replies to the client's own calls, by the pushes
of the other clients' writes, and by `syncStatus`.  The server commits a write and
then posts its pushes, or for a delete posts them and then commits; the handler of the
client's own request commits and then posts its reply; the reply to SYNC_STATUS is
computed and then posted.  In between, the other threads go on.  A call reads the next
frame as its reply, and `syncStatus` passes over the pushes before its reply.

* `PushTask.getElem?_note`, `OwnCall.note_eq_replay` — what a push and a reply leave in
  the map;
* `handling_message` — the replies are those of the session's handler;
* `push_mem_outputs`, `persistedVersionMap_push` — the pushes of a write say what it has
  committed;
* `getElem?_note_handle` — when the reply to a write lets the client know what has been
  committed;
* `ClientView.step` — the machine of the client and the server.
-/
import SquidStorage.SquidFS
import SquidStorage.ClientLink
import SquidStorage.MapTransfer
import SquidStorage.StandbyReplication
import SquidStorage.ReadLastWrite

open BigEndian LastWrite

namespace Squid

/-! ### What the client writes into its map -/

namespace PushTask

def path : PushTask → Bytes
  | pushCreateFile filePath _ _ | pushUpdateFile filePath _ _ | pushDeleteFile filePath => filePath

/-- The version that the client is to have of the file. -/
def version : PushTask → Option Int32
  | pushCreateFile _ version _ | pushUpdateFile _ version _ => some version
  | pushDeleteFile _ => none

def data : PushTask → Bytes
  | pushCreateFile _ _ fileData | pushUpdateFile _ _ fileData => fileData
  | pushDeleteFile _ => []

def message (task : PushTask) : Message := { opcode := task.opcode, fields := task.fields }

/-- `Client::handlePush` on the version map. -/
def note (versions : StrMap Int32) (task : PushTask) : StrMap Int32 :=
  (({ versions := versions } : SquidFS).handlePush task.message task.data).versions

theorem getString_message (task : PushTask) : task.message.getString .filePath = task.path := by
  cases task <;> rfl

theorem getUint32_message {task : PushTask} {v : Int32} (h : task.version = some v) :
    task.message.getUint32 .fileVersion 0 = toUint32 v := by
  cases task with
  | pushCreateFile p u d | pushUpdateFile p u d =>
    obtain rfl : u = v := Option.some.inj h
    simp [message, fields, Message.getUint32, Message.findField, fieldString, fieldUint32,
      FieldID.filePath, FieldID.fileVersion]
  | pushDeleteFile p => simp [version] at h

/-- A push of a file with a name leaves its version in the map, and nothing else
changes. -/
theorem getElem?_note (versions : StrMap Int32) {task : PushTask} (hpath : task.path ≠ [])
    (q : Bytes) :
    (task.note versions)[q]? = if task.path = q then task.version else versions[q]? := by
  have hname : task.message.getString .filePath ≠ [] := by
    rw [getString_message]
    exact hpath
  have hput : ∀ v, task.version = some v → task.note versions = versions.insert task.path v := by
    intro v hv
    have hnote : task.note versions
        = versions.insert (task.message.getString .filePath)
            (toInt32 (task.message.getUint32 .fileVersion 0)) := by
      cases task with
      | pushCreateFile p u d | pushUpdateFile p u d =>
        simp only [note, SquidFS.handlePush, if_pos hname]
        rfl
      | pushDeleteFile p => simp [version] at hv
    rw [hnote, getString_message, getUint32_message hv, toInt32_toUint32]
  cases hv : task.version with
  | some v =>
    rw [hput v hv]
    simp [Std.ExtTreeMap.getElem?_insert]
  | none =>
    have hnote : task.note versions = versions.erase (task.message.getString .filePath) := by
      cases task with
      | pushCreateFile p u d | pushUpdateFile p u d => simp [version] at hv
      | pushDeleteFile p =>
        simp only [note, SquidFS.handlePush, if_pos hname]
        rfl
    rw [hnote, getString_message]
    simp [Std.ExtTreeMap.getElem?_erase]

end PushTask

/-- The calls of `Client` that the version map hangs on. -/
inductive OwnCall where
  | createFile (filePath : Bytes) (version : Int32) (fileData : Bytes)
  | updateFile (filePath : Bytes) (version : Int32) (fileData : Bytes)
  | deleteFile (filePath : Bytes)
  | syncStatus
deriving DecidableEq, Repr

namespace OwnCall

/-- The file that the call writes. -/
def path : OwnCall → Option Bytes
  | createFile filePath _ _ | updateFile filePath _ _ | deleteFile filePath => some filePath
  | syncStatus => none

theorem path_eq_none_iff {call : OwnCall} : call.path = none ↔ call = syncStatus := by
  cases call <;> simp [path]

theorem ne_syncStatus {call : OwnCall} {p : Bytes} (hpath : call.path = some p) :
    call ≠ syncStatus := by
  intro hsync
  rw [path_eq_none_iff.mpr hsync] at hpath
  simp at hpath

def data : OwnCall → Bytes
  | createFile _ _ fileData | updateFile _ _ fileData => fileData
  | deleteFile _ | syncStatus => []

/-- The request. -/
def message : OwnCall → Message
  | createFile filePath version fileData =>
    { opcode := .createFile, fields := (Rpc.createFile filePath version fileData).fields }
  | updateFile filePath version fileData =>
    { opcode := .updateFile, fields := (Rpc.updateFile filePath version fileData).fields }
  | deleteFile filePath => { opcode := .deleteFile, fields := (Rpc.deleteFile filePath).fields }
  | syncStatus => { opcode := .syncStatus, fields := [] }

/-- What the call does to the version map once its reply is there: `setVersionFromAck`,
the erasing of `deleteFile`, the merge of `syncStatus`. -/
def note (versions : StrMap Int32) (reply : Response) : OwnCall → StrMap Int32
  | createFile filePath version fileData =>
    (({ versions := versions } : SquidFS).noteReply reply.message
      (.createFile filePath version fileData)).versions
  | updateFile filePath version fileData =>
    (({ versions := versions } : SquidFS).noteReply reply.message
      (.updateFile filePath version fileData)).versions
  | deleteFile filePath =>
    (({ versions := versions } : SquidFS).noteReply reply.message (.deleteFile filePath)).versions
  | syncStatus =>
    if !reply.message.isResponse then versions
    else
      reply.message.getFileVersionMap.toList.foldl (fun m file => m.insert file.1 file.2) versions

variable (versions : StrMap Int32) (filePath : Bytes) (version : Int32) (fileData : Bytes)

/-- The reply to CREATE_FILE has no version: the map stays as it is. -/
theorem note_createFile (ok : Bool) :
    (createFile filePath version fileData).note versions (.ack ok) = versions := by
  cases ok <;> rfl

theorem note_updateFile {v : Int32} (hv : 0 ≤ v) :
    (updateFile filePath version fileData).note versions (.version true v)
      = versions.insert filePath v := by
  -- a version that is not negative is not the mark of a missing field
  have hmark : toUint32 v ≠ 0xffffffff := by
    intro hmark
    have hv' : v = toInt32 0xffffffff := by rw [← hmark, toInt32_toUint32]
    rw [hv'] at hv
    exact absurd hv (by decide)
  simp only [note, SquidFS.noteReply, SquidFS.setVersionFromAck, Response.isAck_version,
    Response.getUint32_version]
  rw [if_neg (by decide), if_pos hmark, toInt32_toUint32]
  rfl

theorem note_updateFile_rejected :
    (updateFile filePath version fileData).note versions (.ack false) = versions := rfl

theorem note_deleteFile :
    (deleteFile filePath).note versions (.ack true) = versions.erase filePath := rfl

/-- `syncStatus` takes over every version of the server, and drops none of its own. -/
theorem getElem?_note_syncStatus (remote : StrMap Int32) (q : Bytes) :
    (syncStatus.note versions (.versions remote))[q]? = remote[q]?.or versions[q]? := by
  have hmap : (Response.versions remote).message.getFileVersionMap = remote :=
    getFileVersionMap_fields remote _ rfl
  simp only [note, Response.isResponse_message, hmap]
  exact look_foldl_toList_onto remote versions q

/-- Whatever the reply, the map is written in the same way, and a call that is about
one file writes at this file only. -/
theorem note_eq_replay (call : OwnCall) (reply : Response) :
    ∃ ws : List (Write Bytes Int32),
      (∀ p, call.path = some p → ∀ q, q ≠ p → ∀ w ∈ ws, w.at q = none) ∧
        ∀ versions, look (call.note versions reply) = replay (look versions) ws := by
  have hskip : ∀ q, ∀ w ∈ ([] : List (Write Bytes Int32)), w.at q = none := by
    intro q w hw
    simp at hw
  cases call with
  | createFile filePath version fileData | updateFile filePath version fileData =>
    simp only [note, SquidFS.noteReply, SquidFS.setVersionFromAck]
    split
    · exact ⟨[], fun p _ q _ => hskip q, fun versions => rfl⟩
    · split
      · refine ⟨[.put filePath (toInt32 (reply.message.getUint32 .fileVersion 0xffffffff))],
          ?_, fun versions => look_insert _ _ _⟩
        rintro p ⟨⟩ q hq w hw
        obtain rfl := List.mem_singleton.mp hw
        exact if_neg (Ne.symm hq)
      · exact ⟨[], fun p _ q _ => hskip q, fun versions => rfl⟩
  | deleteFile filePath =>
    simp only [note, SquidFS.noteReply]
    split
    · refine ⟨[.del filePath], ?_, fun versions => look_erase _ _⟩
      rintro p ⟨⟩ q hq w hw
      obtain rfl := List.mem_singleton.mp hw
      exact if_neg (Ne.symm hq)
    · exact ⟨[], fun p _ q _ => hskip q, fun versions => rfl⟩
  | syncStatus =>
    refine ⟨reply.message.getFileVersionMap.toList.map fun file => .put file.1 file.2, ?_, ?_⟩
    · rintro p ⟨⟩
    · intro versions
      simp only [note, Response.isResponse_message]
      exact look_foldl_insert Prod.fst Prod.snd _ versions

/-- What the map says of a file afterwards depends on what it said of this file. -/
theorem getElem?_note_congr {m m' : StrMap Int32} {q : Bytes} (h : m[q]? = m'[q]?)
    (call : OwnCall) (reply : Response) : (call.note m reply)[q]? = (call.note m' reply)[q]? := by
  obtain ⟨ws, -, hws⟩ := note_eq_replay call reply
  show look (call.note m reply) q = look (call.note m' reply) q
  rw [hws, hws]
  exact replay_congr h ws

theorem getElem?_note_of_ne {call : OwnCall} {p q : Bytes} (hpath : call.path = some p)
    (hq : q ≠ p) (m : StrMap Int32) (reply : Response) : (call.note m reply)[q]? = m[q]? := by
  obtain ⟨ws, hother, hws⟩ := note_eq_replay call reply
  show look (call.note m reply) q = look m q
  rw [hws]
  exact replay_of_forall_none _ (hother p hpath q hq)

end OwnCall

/-! ### What the server commits and says -/

/-- The client whose request an event is. -/
def ServerEvent.origin : ServerEvent → Option Bytes
  | .create _ _ origin _ _ _ | .update _ _ origin _ _ | .delete _ origin _ => some origin
  | .read .. | .register .. | .loseEndpoint .. | .evict .. => none

/-- What the live datanodes answer while a request of the client is handled. -/
structure CallAnswers where
  write : Bytes → SessionId → WriteAnswer
  rollback : Bytes → SessionId → DeleteAnswer
  delete : Bytes → SessionId → DeleteAnswer
  status : List (StrMap Int32)

/-- The rest of a handler whose request brings a file. -/
def Handling.received (fileData : Bytes) : Handling → Handling
  | upload next => next (some fileData)
  | handling => handling

namespace System

/-- The push of an event, if it is a write that is committed. -/
def pushTask? (sys : System) : ServerEvent → Option PushTask
  | .create filePath version _ fileData answer _ =>
    if sys.createCommits filePath version fileData answer then
      some (.pushCreateFile filePath version fileData)
    else none
  | .update filePath clientSeenVersion _ fileData answer =>
    if sys.updateCommits filePath clientSeenVersion fileData answer then
      some (.pushUpdateFile filePath (sys.newVersion filePath clientSeenVersion) fileData)
    else none
  | .delete filePath _ answer =>
    if sys.deleteCommits filePath answer then some (.pushDeleteFile filePath) else none
  | .read .. | .register .. | .loseEndpoint .. | .evict .. => none

/-- `Server::handleClientRequest` for a request whose file has arrived: the state
afterwards and the reply. -/
def handleClientRequest (sys : System) (processName : Bytes) (answers : CallAnswers) :
    OwnCall → System × Response
  | .createFile filePath version fileData =>
    let created := sys.propagateCreateFile answers.write answers.rollback filePath version
      processName fileData
    (created.2.1, .ack created.1)
  | .updateFile filePath version fileData =>
    let updated := sys.propagateUpdateFile answers.write filePath version processName fileData
    (updated.2.1, if 0 ≤ updated.1 then .version true updated.1 else .ack false)
  | .deleteFile filePath =>
    ((sys.propagateDeleteFile answers.delete filePath processName).1, .ack true)
  | .syncStatus => (sys, .versions (sys.rm.getFileVersionMap answers.status))

/-- The reply is that of the handler of the session, cut at its sends, once the file of
the request has been received. -/
theorem handling_message (sys : System) (processName : Bytes) (answers : CallAnswers)
    {mg : Managers}
    (hcreate : ∀ p v d, mg.propagateCreateFile p v d
      = (sys.propagateCreateFile answers.write answers.rollback p v processName d).1)
    (hupdate : ∀ p v d, mg.propagateUpdateFile p v d
      = (sys.propagateUpdateFile answers.write p v processName d).1)
    (hmap : mg.getFileVersionMap = sys.rm.getFileVersionMap answers.status) (call : OwnCall) :
    (handling mg call.message).received call.data
      = .respond (sys.handleClientRequest processName answers call).2 .finish := by
  have hversion : ∀ op p v, toInt32 (Message.getUint32 { opcode := op, fields :=
      [fieldString .filePath p, fieldUint32 .fileVersion (toUint32 v)] } .fileVersion 0) = v := by
    intro op p v
    rw [← toInt32_toUint32 v]
    simp [Message.getUint32, Message.findField, fieldString, fieldUint32, FieldID.filePath,
      FieldID.fileVersion]
  cases call with
  | createFile filePath version fileData =>
    have hread : toInt32 ((OwnCall.createFile filePath version fileData).message.getUint32
        .fileVersion 0) = version := hversion _ _ _
    have hpath : (OwnCall.createFile filePath version fileData).message.getString .filePath
        = filePath := rfl
    show Handling.respond (.ack (mg.propagateCreateFile _ _ fileData)) _ = _
    rw [hread, hpath, hcreate]
    rfl
  | updateFile filePath version fileData =>
    have hread : toInt32 ((OwnCall.updateFile filePath version fileData).message.getUint32
        .fileVersion 0) = version := hversion _ _ _
    have hpath : (OwnCall.updateFile filePath version fileData).message.getString .filePath
        = filePath := rfl
    show (if 0 ≤ mg.propagateUpdateFile _ _ fileData then
      Handling.respond (.version true (mg.propagateUpdateFile _ _ fileData)) _ else _) = _
    rw [hread, hpath, hupdate, handleClientRequest]
    split <;> rfl
  | deleteFile filePath => rfl
  | syncStatus =>
    show Handling.respond (.versions mg.getFileVersionMap) _ = _
    rw [hmap]
    rfl

/-- The pushes of `handleAccept`: the files that a datanode hands out. -/
def initialPushes (sys : System) (status : List (StrMap Int32))
    (read : Bytes → Bytes → SessionId → ReadAnswer) : List PushTask :=
  (sys.rm.getFileVersionMap status).toList.filterMap fun file =>
    (sys.getFileFromDataNode (read file.1) file.1).map (.pushCreateFile file.1 file.2)

end System

namespace ReplicationManager

variable {rm : ReplicationManager}

/-- The datanode reports committed versions only. -/
def Committed (rm : ReplicationManager) (files : StrMap Int32) : Prop :=
  ∀ file ∈ files.toList, file.1 ∈ rm.persistedVersionMap ∧ file.2 ≤ rm.getKnownVersion file.1

instance (files : StrMap Int32) : Decidable (rm.Committed files) :=
  inferInstanceAs (Decidable (∀ file ∈ files.toList, _))

theorem mergeVersion_of_le {m : StrMap Int32} {file : Bytes × Int32} {v : Int32}
    (hv : m[file.1]? = some v) (hle : file.2 ≤ v) : mergeVersion m file = m := by
  refine Std.ExtTreeMap.ext_getElem? fun q => ?_
  simp only [mergeVersion, hv, if_neg (Int32.not_lt.mpr hle), Std.ExtTreeMap.getElem?_insert,
    Std.LawfulEqCmp.compare_eq_iff_eq]
  split
  · rename_i hq
    rw [← hq, hv]
  · rfl

theorem Committed.exists_version {files : StrMap Int32} (h : rm.Committed files)
    {file : Bytes × Int32} (hfile : file ∈ files.toList) :
    ∃ v, rm.persistedVersionMap[file.1]? = some v ∧ file.2 ≤ v := by
  obtain ⟨hmem, hle⟩ := h file hfile
  obtain ⟨v, hv⟩ := mem_iff_exists_entry.mp hmem
  rw [getKnownVersion, hv] at hle
  exact ⟨v, hv, hle⟩

/-- **What SYNC_STATUS says** when the datanodes report committed versions only. -/
theorem getFileVersionMap_of_committed {replies : List (StrMap Int32)}
    (h : ∀ r ∈ replies, rm.Committed r) :
    rm.getFileVersionMap replies = rm.persistedVersionMap := by
  have hreply : ∀ files : List (Bytes × Int32),
      (∀ file ∈ files, ∃ v, rm.persistedVersionMap[file.1]? = some v ∧ file.2 ≤ v) →
      files.foldl mergeVersion rm.persistedVersionMap = rm.persistedVersionMap := by
    intro files hfiles
    induction files with
    | nil => rfl
    | cons file files ih =>
      obtain ⟨v, hv, hle⟩ := hfiles file List.mem_cons_self
      rw [List.foldl_cons, mergeVersion_of_le hv hle]
      exact ih fun f hf => hfiles f (List.mem_cons_of_mem _ hf)
  rw [getFileVersionMap]
  induction replies with
  | nil => rfl
  | cons r replies ih =>
    rw [List.foldl_cons, hreply _ fun file hfile => (h r List.mem_cons_self).exists_version hfile]
    exact ih fun r' hr' => h r' (List.mem_cons_of_mem _ hr')

end ReplicationManager

namespace System

variable {sys : System} {event : ServerEvent}

/-- **The push of a write says what it has committed.** -/
theorem persistedVersionMap_push {task : PushTask} (h : sys.pushTask? event = some task)
    (q : Bytes) :
    (sys.step event).rm.persistedVersionMap[q]?
      = if task.path = q then task.version else sys.rm.persistedVersionMap[q]? := by
  cases event with
  | create filePath version origin fileData answer rollback =>
    simp only [pushTask?, Option.ite_none_right_eq_some, Option.some.injEq] at h
    obtain ⟨hcommit, rfl⟩ := h
    rw [step, persistedVersionMap_create, if_pos hcommit]
    by_cases hq : filePath = q <;>
      simp [Std.ExtTreeMap.getElem?_insert, PushTask.path, PushTask.version, hq]
  | update filePath seen origin fileData answer =>
    simp only [pushTask?, Option.ite_none_right_eq_some, Option.some.injEq] at h
    obtain ⟨hcommit, rfl⟩ := h
    rw [step, persistedVersionMap_update, if_pos hcommit]
    by_cases hq : filePath = q <;>
      simp [Std.ExtTreeMap.getElem?_insert, PushTask.path, PushTask.version, hq]
  | delete filePath origin answer =>
    simp only [pushTask?, Option.ite_none_right_eq_some, Option.some.injEq] at h
    obtain ⟨hcommit, rfl⟩ := h
    rw [step, delete_of_commits hcommit]
    by_cases hq : filePath = q <;>
      simp [ReplicationManager.commitDelete, Std.ExtTreeMap.getElem?_erase, PushTask.path,
        PushTask.version, hq]
  | read | register | loseEndpoint | evict => simp [pushTask?] at h

/-- Without a commit the versions stay, unless a datanode brings its own. -/
theorem persistedVersionMap_of_no_push (h : sys.pushTask? event = none)
    (hregister : ∀ name session files replies, event = .register name session files replies →
      sys.rm.Committed files) :
    (sys.step event).rm.persistedVersionMap = sys.rm.persistedVersionMap := by
  cases event with
  | create filePath version origin fileData answer rollback =>
    have hreject : ¬ sys.createCommits filePath version fileData answer = true := by
      intro hcommit
      simp [pushTask?, hcommit] at h
    rw [step, persistedVersionMap_create, if_neg hreject]
  | update filePath seen origin fileData answer =>
    have hreject : ¬ sys.updateCommits filePath seen fileData answer = true := by
      intro hcommit
      simp [pushTask?, hcommit] at h
    rw [step, persistedVersionMap_update, if_neg hreject]
  | delete filePath origin answer =>
    have hreject : ¬ sys.deleteCommits filePath answer = true := by
      intro hcommit
      simp [pushTask?, hcommit] at h
    rw [step, delete_of_rejected hreject]
  | register name session files replies =>
    have hcommitted := hregister name session files replies rfl
    refine Tracked.persistedVersionMap_register sys.rm name session files replies
      fun file hfile => ?_
    obtain ⟨v, hv, hle⟩ := hcommitted.exists_version hfile
    rwa [hv]
  | evict name answer => exact persistedVersionMap_eraseFromReplicationMap sys answer name
  | read | loseEndpoint => rfl

theorem mem_pushOthers {rm : ReplicationManager} {origin client : Bytes} {task task' : PushTask} :
    .push client task ∈ pushOthers rm origin task' ↔
      task' = task ∧ client ∈ rm.clientEndpointMap ∧ client ≠ origin := by
  simp only [pushOthers, List.mem_map, List.mem_filter, decide_eq_true_eq, Output.push.injEq,
    Std.ExtTreeSet.mem_toList]
  constructor
  · rintro ⟨c, hc, rfl, rfl⟩
    exact ⟨rfl, hc⟩
  · rintro ⟨rfl, hc⟩
    exact ⟨client, hc, rfl, rfl⟩

/-- The pushes that a write posts are those of its commit, and go to all clients but
the one whose request it is. -/
theorem push_mem_outputs (client : Bytes) (task : PushTask) :
    .push client task ∈ sys.outputs event ↔ sys.pushTask? event = some task ∧
      client ∈ sys.rm.clientEndpointMap ∧ event.origin ≠ some client := by
  cases event with
  | create filePath version origin fileData answer rollback =>
    by_cases hcommit : sys.createCommits filePath version fileData answer = true
    · have hquorum := hcommit
      rw [createCommits, decide_eq_true_eq] at hquorum
      simp only [outputs, propagateCreateFile, if_neg (Nat.not_lt.mpr hquorum), pushTask?,
        if_pos hcommit, ServerEvent.origin]
      simp [mem_pushOthers, eq_comm]
    · have hmissed := hcommit
      rw [createCommits, decide_eq_true_eq] at hmissed
      simp only [outputs, propagateCreateFile, if_pos (Nat.lt_of_not_le hmissed), pushTask?,
        if_neg hcommit]
      simp
  | update filePath seen origin fileData answer =>
    by_cases hcommit : sys.updateCommits filePath seen fileData answer = true
    · have hquorum := hcommit
      rw [updateCommits, decide_eq_true_eq] at hquorum
      simp only [outputs, propagateUpdateFile, if_neg (Nat.not_lt.mpr hquorum), pushTask?,
        if_pos hcommit, ServerEvent.origin]
      simp [mem_pushOthers, eq_comm]
    · have hmissed := hcommit
      rw [updateCommits, decide_eq_true_eq] at hmissed
      simp only [outputs, propagateUpdateFile, if_pos (Nat.lt_of_not_le hmissed), pushTask?,
        if_neg hcommit]
      simp
  | delete filePath origin answer =>
    simp only [pushTask?, ServerEvent.origin]
    by_cases hcommit : sys.deleteCommits filePath answer = true
    · rw [outputs, delete_of_commits hcommit, if_pos hcommit]
      simp [mem_pushOthers, eq_comm]
    · rw [outputs, delete_of_rejected hcommit, if_neg hcommit]
      simp
  | read | register | loseEndpoint | evict => simp [outputs, pushTask?]

end System

/-- The reply lets the client know what has become of its file: a CREATE that is
committed has the version that the file had, an UPDATE a version that is not negative,
and a DELETE leaves no file. -/
def OwnCall.Reported (sys : System) (answers : CallAnswers) : OwnCall → Prop
  | createFile filePath version fileData =>
    sys.createCommits filePath version fileData answers.write = true →
      sys.rm.persistedVersionMap[filePath]? = some version
  | updateFile filePath version fileData =>
    sys.updateCommits filePath version fileData answers.write = true →
      0 ≤ sys.newVersion filePath version
  | deleteFile filePath =>
    sys.deleteCommits filePath answers.delete = true ∨ filePath ∉ sys.rm.persistedVersionMap
  | syncStatus => True

instance (sys : System) (answers : CallAnswers) : DecidablePred (OwnCall.Reported sys answers)
  | .createFile .. | .updateFile .. => inferInstanceAs (Decidable (_ → _))
  | .deleteFile _ => inferInstanceAs (Decidable (_ ∨ _))
  | .syncStatus => isTrue True.intro

namespace System

variable {sys : System} {answers : CallAnswers} {call : OwnCall} {p : Bytes} (processName : Bytes)

theorem persistedVersionMap_handle_of_ne (hpath : call.path = some p) {q : Bytes} (hq : q ≠ p) :
    (sys.handleClientRequest processName answers call).1.rm.persistedVersionMap[q]?
      = sys.rm.persistedVersionMap[q]? := by
  cases call with
  | createFile filePath version fileData =>
    obtain rfl : filePath = p := Option.some.inj hpath
    simp only [handleClientRequest, persistedVersionMap_create]
    split
    · simp [Std.ExtTreeMap.getElem?_insert, Ne.symm hq]
    · rfl
  | updateFile filePath version fileData =>
    obtain rfl : filePath = p := Option.some.inj hpath
    simp only [handleClientRequest, persistedVersionMap_update]
    split
    · simp [Std.ExtTreeMap.getElem?_insert, Ne.symm hq]
    · rfl
  | deleteFile filePath =>
    obtain rfl : filePath = p := Option.some.inj hpath
    exact persistedVersionMap_delete_of_ne sys answers.delete processName (Ne.symm hq)
  | syncStatus => rfl

/-- **The reply brings the client's map to the server's** exactly if it is reported. -/
theorem getElem?_note_handle (hpath : call.path = some p) {m : StrMap Int32}
    (hm : m[p]? = sys.rm.persistedVersionMap[p]?) :
    (call.note m (sys.handleClientRequest processName answers call).2)[p]?
        = (sys.handleClientRequest processName answers call).1.rm.persistedVersionMap[p]? ↔
      call.Reported sys answers := by
  cases call with
  | createFile filePath version fileData =>
    obtain rfl : filePath = p := Option.some.inj hpath
    simp only [handleClientRequest, OwnCall.note_createFile, persistedVersionMap_create, hm,
      OwnCall.Reported]
    split
    · rename_i hcommit
      rw [Std.ExtTreeMap.getElem?_insert_self]
      exact ⟨fun h _ => h, fun h => h hcommit⟩
    · rename_i hreject
      exact ⟨fun _ h => absurd h hreject, fun _ => rfl⟩
  | updateFile filePath version fileData =>
    obtain rfl : filePath = p := Option.some.inj hpath
    simp only [handleClientRequest, persistedVersionMap_update, OwnCall.Reported]
    by_cases hcommit : sys.updateCommits filePath version fileData answers.write = true
    · rw [(update_of_commits sys answers.write filePath version processName fileData hcommit).1,
        if_pos hcommit, Std.ExtTreeMap.getElem?_insert_self]
      by_cases hnonneg : 0 ≤ sys.newVersion filePath version
      · rw [if_pos hnonneg, OwnCall.note_updateFile _ _ _ _ hnonneg,
          Std.ExtTreeMap.getElem?_insert_self]
        exact ⟨fun _ _ => hnonneg, fun _ => rfl⟩
      · -- a NACK for an update that is committed, with another version than before
        rw [if_neg hnonneg, OwnCall.note_updateFile_rejected, hm]
        refine ⟨fun h => ?_, fun h => absurd (h hcommit) hnonneg⟩
        have hself : sys.newVersion filePath version = sys.newVersion filePath version + 1 := by
          conv_lhs => rw [newVersion, h, Option.getD_some]
        simp at hself
    · rw [(update_of_rejected sys answers.write filePath version processName fileData hcommit).1,
        if_neg (by decide), OwnCall.note_updateFile_rejected, if_neg hcommit, hm]
      exact ⟨fun _ h => absurd h hcommit, fun _ => rfl⟩
  | deleteFile filePath =>
    obtain rfl : filePath = p := Option.some.inj hpath
    simp only [handleClientRequest, OwnCall.note_deleteFile, Std.ExtTreeMap.getElem?_erase_self,
      OwnCall.Reported]
    by_cases hcommit : sys.deleteCommits filePath answers.delete = true
    · simp [delete_of_commits hcommit, ReplicationManager.commitDelete, hcommit]
    · simp [delete_of_rejected hcommit, hcommit]
  | syncStatus => simp [OwnCall.path] at hpath

end System

/-! ### The machine -/

/-- What the server's session sends to the client. -/
inductive Delivery where
  | push (task : PushTask)
  | reply (reply : Response)

def Delivery.isReply : Delivery → Bool
  | .push _ => false
  | .reply _ => true

/-- Where the call is that the client makes.  There is one at a time: the session's
worker makes it and waits for its reply. -/
inductive Exchange where
  | idle
  /-- the request is on its way or in its handler -/
  | asked (call : OwnCall)
  /-- the handler has its reply and has not posted it yet -/
  | answered (call : OwnCall) (reply : Response)
  /-- the reply is on its way -/
  | sent (call : OwnCall)

/-- The call that the client waits in. -/
def Exchange.call : Exchange → Option OwnCall
  | .idle => none
  | .asked call | .answered call _ | .sent call => some call

/-- A client, the server, and what is between them. -/
structure ClientView where
  processName : Bytes
  sys : System
  /-- `Client::versions_` -/
  versions : StrMap Int32 := ∅
  connected : Bool := false
  /-- `syncStatus` has returned since the client connected -/
  synced : Bool := false
  exchange : Exchange := .idle
  /-- what has been posted to the client's session and not been read, in order -/
  stream : List Delivery := []
  /-- the pushes of committed writes that are still to be posted -/
  owed : List PushTask := []
  /-- the files whose delete has been pushed and is still to be committed -/
  ahead : List Bytes := []

inductive ViewEvent where
  /-- anything that happens to the server but the requests of this connection; a put is
  `listed` when the client's session is among those that its handler pushes to -/
  | server (event : ServerEvent) (listed : Bool)
  /-- the handler of another client's DELETE posts its push, and then goes on to
  commit the delete -/
  | announce (filePath : Bytes)
  /-- the handler of another client's put posts its push -/
  | post (task : PushTask)
  | call (call : OwnCall)
  | handle (answers : CallAnswers)
  | respond
  | receive
  | disconnect
  /-- `handleAccept`, with what the datanodes report and hand out -/
  | reconnect (status : List (StrMap Int32)) (read : Bytes → Bytes → SessionId → ReadAnswer)

namespace ClientView

def start (processName : Bytes) (sys : System) : ClientView :=
  { processName := processName, sys := sys }

/-- The commit of another client's request.  The handler of a put owes the push then,
that of a delete has posted it. -/
def commit (s : ClientView) (event : ServerEvent) (listed : Bool) : ClientView :=
  match s.sys.pushTask? event with
  | none => { s with sys := s.sys.step event }
  | some (.pushDeleteFile filePath) =>
    { s with sys := s.sys.step event, ahead := s.ahead.erase filePath }
  | some task =>
    { s with sys := s.sys.step event, owed := if listed then s.owed ++ [task] else s.owed }

/-- The session's worker reads what comes next: in `syncStatus`, in another call, or
between calls.  A call that finds a push in place of its reply ends without an ACK; it
is not continued here. -/
def read (s : ClientView) : Option ClientView :=
  match s.stream, s.exchange.call with
  | [], _ => none
  | .push task :: rest, none => some { s with stream := rest, versions := task.note s.versions }
  | .push _ :: rest, some .syncStatus => some { s with stream := rest }
  | .push _ :: _, some _ => none
  | .reply _ :: rest, none => some { s with stream := rest }
  | .reply reply :: rest, some call =>
    some { s with
      stream := rest
      versions := call.note s.versions reply
      exchange := .idle
      synced := s.synced || call == .syncStatus }

def step (s : ClientView) : ViewEvent → Option ClientView
  | .server event listed =>
    if listed && (!s.connected || event.origin == some s.processName) then none
    else some (s.commit event listed)
  | .announce filePath =>
    if s.connected then
      some { s with
        stream := s.stream ++ [.push (.pushDeleteFile filePath)]
        ahead := filePath :: s.ahead }
    else none
  | .post task =>
    if task ∈ s.owed then
      some { s with stream := s.stream ++ [.push task], owed := s.owed.erase task }
    else none
  | .call call =>
    match s.exchange with
    | .idle => if s.connected then some { s with exchange := .asked call } else none
    | .asked _ | .answered .. | .sent _ => none
  | .handle answers =>
    match s.exchange with
    | .asked call =>
      let handled := s.sys.handleClientRequest s.processName answers call
      some { s with sys := handled.1, exchange := .answered call handled.2 }
    | .idle | .answered .. | .sent _ => none
  | .respond =>
    match s.exchange with
    | .answered call reply =>
      -- a map of too many files does not fit into a frame
      match reply.format with
      | .ok _ => some { s with exchange := .sent call, stream := s.stream ++ [.reply reply] }
      | .error _ => none
    | .idle | .asked _ | .sent _ => none
  | .receive => s.read
  | .disconnect =>
    if s.connected then
      some { s with
        connected := false, synced := false, exchange := .idle, stream := [], owed := [] }
    else none
  | .reconnect status read =>
    if s.connected then none
    else
      some { s with
        connected := true, synced := false, exchange := .idle, owed := []
        stream := (s.sys.initialPushes status read).map .push }

/-- The client is connected and has called `syncStatus` since it connected, and no push
and no reply is on its way to it or about to be posted. -/
structure AtRest (s : ClientView) : Prop where
  connected : s.connected = true
  synced : s.synced = true
  exchange : s.exchange = .idle
  stream : s.stream = []
  owed : s.owed = []

end ClientView

end Squid
