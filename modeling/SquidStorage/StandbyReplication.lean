/-
A primary with a registered standby.

Every committed write of the primary sends one `STATE_DELTA` frame to the
standby, but for a delete on which the primary's own `fs::remove` throws; nothing
else sends one.  The frames go through `stateDeltaFormat`, `stampSeq` and
`parseMessage` and are handled by the standby's watcher in order.

* `StandbyLink.step_eq` — what an event does to both sides: the commit of the
  event, if there is one, on the primary, and its delta on the standby;
* `standby_versions_iff` — client writes keep the standby's version map equal to the
  primary's exactly if no delete of a file that the primary has throws;
* `deleted_file_stays` — one that does.
-/
import SquidStorage.StandbyJoin
import SquidStorage.HolderSets
import SquidStorage.FrameCodec

open BigEndian TextStream LastWrite

namespace Squid

/-! ### Commits and what they send -/

namespace System

/-- What an event sends on: only the three writes do. -/
def outputs (sys : System) : ServerEvent → List Output
  | .create filePath version origin fileData answer rollback =>
    (sys.propagateCreateFile answer rollback filePath version origin fileData).2.2
  | .update filePath clientSeenVersion origin fileData answer =>
    (sys.propagateUpdateFile answer filePath clientSeenVersion origin fileData).2.2
  | .delete filePath origin answer => (sys.propagateDeleteFile answer filePath origin).2
  | .read .. | .register .. | .loseEndpoint .. | .evict .. => []

/-- The commit of an event, if it is a write that is committed. -/
def commit? (sys : System) : ServerEvent → Option Commit
  | .create filePath version _ fileData answer _ =>
    if sys.createCommits filePath version fileData answer then
      some (.put filePath version ((fanOut answer filePath ⟨fileData, version⟩
        sys.rm.dataNodeEndpointMap.toList sys.nodes).2.map Prod.fst))
    else none
  | .update filePath clientSeenVersion _ fileData answer =>
    if sys.updateCommits filePath clientSeenVersion fileData answer then
      some (.put filePath (sys.newVersion filePath clientSeenVersion)
        ((sys.rm.holders filePath).toList.map Prod.fst))
    else none
  | .delete filePath _ answer =>
    if sys.deleteCommits filePath answer then some (.del filePath) else none
  | .read .. | .register .. | .loseEndpoint .. | .evict .. => none

end System

namespace Commit

def filePath : Commit → Bytes
  | .put filePath _ _ | .del filePath => filePath

/-- The names that the delta carries. -/
def holders : Commit → List Bytes
  | .put _ _ holders => holders
  | .del _ => []

def output : Commit → Output
  | .put filePath version holders => .delta 0 filePath version holders
  | .del filePath => .delta 1 filePath 0 []

/-- What the delta does to the standby's holder sets. -/
def applyHolders (repMap : StrMap StrSet) : Commit → StrMap StrSet
  | .put filePath _ holders => repMap.insert filePath (Std.ExtTreeSet.ofList holders)
  | .del filePath => repMap.erase filePath

/-- When the delta can be encoded. -/
theorem fits_deltaFields {c : Commit} {epoch : UInt32} (hpath : c.filePath.length ≤ 65535)
    (hcount : c.holders.length ≤ 251) (hnames : ∀ n ∈ c.holders, n.length ≤ 65535) :
    Fits (c.deltaFields epoch) := by
  cases c with
  | put filePath version holders =>
    refine ⟨?_, ?_⟩
    · simp only [deltaFields, stateDeltaFields, List.length_cons, List.length_map]
      have : holders.length ≤ 251 := hcount
      omega
    · simp only [deltaFields, stateDeltaFields, List.forall_mem_cons, List.forall_mem_map,
        fieldUint32, fieldString, length_pushU32]
      exact ⟨by decide, by decide, hpath, by decide, hnames⟩
  | del filePath =>
    refine ⟨by simp [deltaFields, stateDeltaFields], ?_⟩
    simp only [deltaFields, stateDeltaFields, List.forall_mem_cons, List.map_nil, fieldUint32,
      fieldString, length_pushU32]
    exact ⟨by decide, by decide, hpath, by decide, by simp⟩

/-- **What the watcher does with a delta** of a leader that is not stale. -/
theorem handleFrame_delta (c : Commit) {w : Watcher} {epoch : UInt32}
    (h : w.observedEpoch ≤ epoch) (seq : UInt32) :
    w.handleFrame { opcode := .stateDelta, seq := seq, fields := c.deltaFields epoch }
      = { versionMap := c.apply w.versionMap, repMap := c.applyHolders w.repMap
          observedEpoch := epoch } := by
  set msg : Message := { opcode := .stateDelta, seq := seq, fields := c.deltaFields epoch }
    with hmsg
  have hepoch : msg.epoch = epoch := (frameWrite_delta c epoch seq).1
  have hfresh : ¬ msg.epoch < w.observedEpoch := by
    rw [hepoch]
    grind
  have hraised : (w.raise epoch).versionMap = w.versionMap ∧ (w.raise epoch).repMap = w.repMap := by
    rw [Watcher.raise]
    split <;> exact ⟨rfl, rfl⟩
  have hobserved := Watcher.observedEpoch_raise w h
  rw [Watcher.handleFrame, if_neg hfresh]
  show w.applyDelta msg = _
  cases c with
  | put filePath version holders =>
    obtain ⟨-, hop, hpath, hversion⟩ := delta_fields 0 filePath version holders epoch seq
    have hnames : (msg.fields.filter fun f => f.id = .datanodeName).map BinaryField.value
        = holders := delta_holders 0 filePath version holders epoch
    simp only [Watcher.applyDelta, hmsg, deltaFields] at hnames ⊢
    rw [hop, hpath, hversion, hnames, if_neg (by decide)]
    simp only [hmsg, deltaFields] at hepoch
    rw [hepoch, hraised.1, hraised.2, hobserved]
    rfl
  | del filePath =>
    obtain ⟨-, hop, hpath, -⟩ := delta_fields 1 filePath 0 [] epoch seq
    simp only [Watcher.applyDelta, hmsg, deltaFields] at hepoch ⊢
    rw [hop, hpath, if_pos rfl, hepoch, hraised.1, hraised.2, hobserved]
    rfl

end Commit

namespace System

theorem outputs_of_no_commit {sys : System} {event : ServerEvent} (h : sys.commit? event = none) :
    sys.outputs event = [] := by
  cases event with
  | create filePath version origin fileData answer rollback =>
    have hreject : ¬ sys.createCommits filePath version fileData answer = true := by
      intro hcommit
      simp [commit?, hcommit] at h
    rw [createCommits, decide_eq_true_eq] at hreject
    simp only [outputs, propagateCreateFile, if_pos (Nat.lt_of_not_le hreject)]
  | update filePath seen origin fileData answer =>
    have hreject : ¬ sys.updateCommits filePath seen fileData answer = true := by
      intro hcommit
      simp [commit?, hcommit] at h
    rw [updateCommits, decide_eq_true_eq] at hreject
    simp only [outputs, propagateUpdateFile, if_pos (Nat.lt_of_not_le hreject)]
  | delete filePath origin answer =>
    have hreject : ¬ sys.deleteCommits filePath answer = true := by
      intro hcommit
      simp [commit?, hcommit] at h
    rw [outputs, delete_of_rejected hreject]
  | read | register | loseEndpoint | evict => rfl

/-- A commit sends its delta, before or after the pushes to the clients. -/
theorem outputs_of_commit {sys : System} {event : ServerEvent} {c : Commit}
    (h : sys.commit? event = some c) :
    ∃ rm origin task, sys.outputs event = c.output :: pushOthers rm origin task ∨
      sys.outputs event = pushOthers rm origin task ++ [c.output] := by
  cases event with
  | create filePath version origin fileData answer rollback =>
    simp only [commit?, Option.ite_none_right_eq_some, Option.some.injEq] at h
    obtain ⟨hcommit, rfl⟩ := h
    rw [createCommits, decide_eq_true_eq] at hcommit
    refine ⟨sys.rm, origin, .pushCreateFile filePath version fileData, Or.inl ?_⟩
    simp only [outputs, propagateCreateFile, if_neg (Nat.not_lt.mpr hcommit), Commit.output]
  | update filePath seen origin fileData answer =>
    simp only [commit?, Option.ite_none_right_eq_some, Option.some.injEq] at h
    obtain ⟨hcommit, rfl⟩ := h
    rw [updateCommits, decide_eq_true_eq] at hcommit
    refine ⟨sys.rm, origin, .pushUpdateFile filePath (sys.newVersion filePath seen) fileData,
      Or.inl ?_⟩
    simp only [outputs, propagateUpdateFile, if_neg (Nat.not_lt.mpr hcommit), Commit.output]
  | delete filePath origin answer =>
    simp only [commit?, Option.ite_none_right_eq_some, Option.some.injEq] at h
    obtain ⟨hcommit, rfl⟩ := h
    refine ⟨sys.rm, origin, .pushDeleteFile filePath, Or.inr ?_⟩
    rw [outputs, delete_of_commits hcommit]
    rfl
  | read | register | loseEndpoint | evict => simp [commit?] at h

end System

/-! ### The primary's own disk -/

/-- An event of the primary, and what its own `fs::remove` throws if it is a delete that
comes so far. -/
structure PrimaryEvent where
  event : ServerEvent
  removeError : Option String := none

namespace System

/-- The server after an event. -/
def stepOn (sys : System) (e : PrimaryEvent) : System :=
  match e.event with
  | .delete filePath origin answer =>
    (sys.propagateDeleteFileThrowing e.removeError answer filePath origin).1
  | event => sys.step event

/-- What the event sends on. -/
def outputsOn (sys : System) (e : PrimaryEvent) : List Output :=
  match e.event with
  | .delete filePath origin answer =>
    (sys.propagateDeleteFileThrowing e.removeError answer filePath origin).2.1
  | event => sys.outputs event

/-- The event is a delete of this path that is carried out and throws. -/
def Throws (sys : System) (e : PrimaryEvent) (filePath : Bytes) : Prop :=
  e.removeError ≠ none ∧
    ∃ origin answer, e.event = .delete filePath origin answer ∧ sys.deleteCommits filePath answer

theorem Throws.unique {sys : System} {e : PrimaryEvent} {filePath filePath' : Bytes}
    (h : sys.Throws e filePath) (h' : sys.Throws e filePath') : filePath' = filePath := by
  obtain ⟨-, _, _, heq, -⟩ := h
  obtain ⟨-, _, _, heq', -⟩ := h'
  rw [heq'] at heq
  injection heq

/-- **The two kinds of events**: those in which nothing is thrown, and the deletes that
throw, which erase the file and send pushes only. -/
theorem stepOn_cases (sys : System) (e : PrimaryEvent) :
    (∀ filePath, ¬ sys.Throws e filePath) ∧ sys.stepOn e = sys.step e.event ∧
        sys.outputsOn e = sys.outputs e.event ∨
      ∃ filePath origin task, sys.Throws e filePath ∧
        sys.commit? e.event = some (.del filePath) ∧
        (sys.stepOn e).rm = sys.rm.eraseFile filePath ∧
        sys.outputsOn e = pushOthers sys.rm origin task := by
  obtain ⟨event, removeError⟩ := e
  -- only a delete looks at what is thrown
  have hplain : ∀ {event}, (∀ filePath origin answer, event ≠ .delete filePath origin answer) →
      ∀ filePath, ¬ sys.Throws ⟨event, removeError⟩ filePath :=
    fun h filePath ⟨_, origin, answer, heq, _⟩ => h filePath origin answer heq
  cases event with
  | delete filePath origin answer =>
    by_cases hcommit : sys.deleteCommits filePath answer = true
    · cases removeError with
      | none =>
        refine .inl ⟨fun _ h => h.1 rfl, ?_⟩
        simp only [stepOn, outputsOn, propagateDeleteFileThrowing_none]
        exact ⟨rfl, rfl⟩
      | some error =>
        refine .inr ⟨filePath, origin, .pushDeleteFile filePath,
          ⟨by simp, origin, answer, rfl, hcommit⟩, ?_⟩
        simp only [stepOn, outputsOn, throwing_of_commits hcommit, commit?, if_pos hcommit,
          and_self]
    · refine .inl ⟨?_, ?_⟩
      · rintro _ ⟨-, _, _, heq, h⟩
        cases heq
        exact hcommit h
      · simp only [stepOn, outputsOn, throwing_of_rejected hcommit removeError,
          propagateDeleteFileThrowing_none]
        exact ⟨rfl, rfl⟩
  | create | update | read | register | loseEndpoint | evict =>
    exact .inl ⟨hplain (by simp), rfl, rfl⟩

end System

/-! ### The primary and its standby -/

/-- A primary, the sequence number of its session with a standby, and the standby. -/
structure StandbyLink where
  sys : System
  epoch : UInt32
  nextSeq : UInt32
  standby : Watcher

namespace StandbyLink

/-- A frame goes out on the standby's session and is handled there.  A frame that
cannot be built throws in the posted task, where nobody catches it. -/
def sendFrame (l : StandbyLink) (frame : Except String Bytes) : Option StandbyLink :=
  match frame with
  | .error _ => none
  | .ok frame =>
    match parseMessage (stampSeq frame l.nextSeq) with
    | .error _ => none
    | .ok msg => some { l with nextSeq := l.nextSeq + 1, standby := l.standby.handleFrame msg }

/-- An output of the primary: `sendDelta` is for the standby, a push is not. -/
def send (l : StandbyLink) : Output → Option StandbyLink
  | .delta op filePath version holders =>
    l.sendFrame (stateDeltaFormat op filePath version holders l.epoch)
  | .push _ _ => some l

/-- An event of the primary, with the frames that it sends delivered. -/
def step (l : StandbyLink) (e : PrimaryEvent) : Option StandbyLink :=
  (l.sys.outputsOn e).foldlM send { l with sys := l.sys.stepOn e }

theorem foldlM_pushOthers (l : StandbyLink) (rm : ReplicationManager) (origin : Bytes)
    (task : PushTask) : (pushOthers rm origin task).foldlM send l = some l := by
  rw [pushOthers]
  induction rm.clientEndpointMap.toList.filter fun c => c ≠ origin with
  | nil => rfl
  | cons c cs ih => exact ih

/-- An event in which nothing is thrown: the commit, if there is one, and its delta. -/
def plainStep (l : StandbyLink) (event : ServerEvent) : Option StandbyLink :=
  match l.sys.commit? event with
  | none => some { l with sys := l.sys.step event }
  | some c => sendFrame { l with sys := l.sys.step event } (c.deltaFormat l.epoch)

/-- **What an event does**: it changes the primary, and the delta of its commit,
if it has one, goes to the standby; a delete that throws erases the file on the primary only. -/
theorem step_eq (l : StandbyLink) (e : PrimaryEvent) :
    (∀ filePath, ¬ l.sys.Throws e filePath) ∧ l.sys.stepOn e = l.sys.step e.event ∧
        l.step e = l.plainStep e.event ∨
      ∃ filePath, l.sys.Throws e filePath ∧ l.sys.commit? e.event = some (.del filePath) ∧
        (l.sys.stepOn e).rm = l.sys.rm.eraseFile filePath ∧
        l.step e = some { l with sys := l.sys.stepOn e } := by
  have hsend : ∀ (l : StandbyLink) (c : Commit),
      l.send c.output = l.sendFrame (c.deltaFormat l.epoch) := fun l c => by cases c <;> rfl
  obtain ⟨hthrows, hstep, houtputs⟩ | ⟨filePath, origin, task, hthrows, hcommit, hstep, houtputs⟩ :=
    l.sys.stepOn_cases e
  · refine .inl ⟨hthrows, hstep, ?_⟩
    rw [step, hstep, houtputs, plainStep]
    cases hcommit : l.sys.commit? e.event with
    | none =>
      rw [System.outputs_of_no_commit hcommit]
      rfl
    | some c =>
      obtain ⟨rm, origin, task, hfirst | hlast⟩ := System.outputs_of_commit hcommit
      · rw [hfirst, List.foldlM_cons, hsend]
        simp only [foldlM_pushOthers]
        exact bind_pure (m := Option) _
      · rw [hlast, List.foldlM_append, foldlM_pushOthers]
        exact (bind_pure (m := Option) _).trans (hsend _ c)
  · refine .inr ⟨filePath, hthrows, hcommit, hstep, ?_⟩
    rw [step, houtputs, foldlM_pushOthers]

/-- The delta of a commit that can be encoded is applied. -/
theorem sendFrame_delta {l : StandbyLink} {c : Commit} (hfits : Fits (c.deltaFields l.epoch))
    (hepoch : l.standby.observedEpoch ≤ l.epoch) :
    l.sendFrame (c.deltaFormat l.epoch)
      = some { l with
          nextSeq := l.nextSeq + 1
          standby := { versionMap := c.apply l.standby.versionMap
                       repMap := c.applyHolders l.standby.repMap
                       observedEpoch := l.epoch } } := by
  have hbuilt := buildFrame_eq_ok hfits .stateDelta 0 0
  rw [← Commit.deltaFormat_eq] at hbuilt
  have hparse := parseMessage_stampSeq
    ((Commit.deltaFormat_eq c l.epoch).symm.trans hbuilt) l.nextSeq
  simp only [sendFrame, hbuilt, hparse, Commit.handleFrame_delta c hepoch]

/-- A frame that was sent could be encoded. -/
theorem fits_of_sendFrame {l t : StandbyLink} {c : Commit}
    (h : l.sendFrame (c.deltaFormat l.epoch) = some t) : Fits (c.deltaFields l.epoch) := by
  refine (buildFrame_eq_ok_iff .stateDelta 0 _ 0).mp ?_
  rw [← Commit.deltaFormat_eq]
  cases hframe : c.deltaFormat l.epoch with
  | error e => simp [sendFrame, hframe] at h
  | ok frame => exact ⟨frame, rfl⟩

end StandbyLink

/-! ### Versions -/

/-- The requests of clients that write. -/
def ServerEvent.isClientWrite : ServerEvent → Bool
  | .create .. | .update .. | .delete .. => true
  | .read .. | .register .. | .loseEndpoint .. | .evict .. => false

theorem persistedVersionMap_clientWrite (sys : System) {event : ServerEvent}
    (h : event.isClientWrite = true) :
    (sys.step event).rm.persistedVersionMap
      = match sys.commit? event with
        | none => sys.rm.persistedVersionMap
        | some c => c.apply sys.rm.persistedVersionMap := by
  cases event with
  | create filePath version origin fileData answer rollback =>
    rw [System.step, System.persistedVersionMap_create, System.commit?]
    split <;> rfl
  | update filePath seen origin fileData answer =>
    rw [System.step, System.persistedVersionMap_update, System.commit?]
    split <;> rfl
  | delete filePath origin answer =>
    rw [System.step, System.commit?]
    by_cases hcommit : sys.deleteCommits filePath answer
    · rw [if_pos hcommit, System.delete_of_commits hcommit]
      rfl
    · rw [if_neg hcommit, System.delete_of_rejected hcommit]
  | read | register | loseEndpoint | evict => simp [ServerEvent.isClientWrite] at h

/-- A datanode's name is what the `PROCESS_NAME` field of its identity said, so it
is no longer than a field. -/
def IsProcessName (name : Bytes) : Prop :=
  ∃ frame msg, parseMessage frame = .ok msg ∧ msg.getString .processName [] = name

theorem IsProcessName.length_le {name : Bytes} (h : IsProcessName name) : name.length ≤ 65535 := by
  obtain ⟨frame, msg, hparse, rfl⟩ := h
  have hfits := (parseMessage_sound hparse).1
  rw [Message.getString]
  cases hfind : msg.findField .processName with
  | none => simp
  | some f => exact hfits.2 f (List.mem_of_find?_eq_some hfind)

namespace ReplicationManager

/-- Every datanode that the server knows of has introduced itself. -/
structure NamesReceived (rm : ReplicationManager) : Prop where
  endpoints : ∀ n ∈ rm.dataNodeEndpointMap, IsProcessName n
  holders : ∀ p, ∀ n ∈ rm.holders p, IsProcessName n

theorem namesReceived_start (replicationFactor : ℕ) (versionFile : Option Bytes) :
    (start replicationFactor versionFile).NamesReceived where
  endpoints := fun n hn => by simp [start] at hn
  holders := fun p n hn => by simp [start, ReplicationManager.holders] at hn

end ReplicationManager

/-- The names of those that ACKed a create are endpoints. -/
theorem mem_endpoints_of_acked {sys : System} {answer : Bytes → SessionId → WriteAnswer}
    {filePath : Bytes} {file : StoredFile} {n : Bytes}
    (h : n ∈ (fanOut answer filePath file sys.rm.dataNodeEndpointMap.toList
      sys.nodes).2.map Prod.fst) : n ∈ sys.rm.dataNodeEndpointMap := by
  rw [fanOut_ackedNodes] at h
  obtain ⟨d, hd, rfl⟩ := List.mem_map.mp h
  have hin := List.mem_map_of_mem (f := Prod.fst) (List.mem_of_mem_filter hd)
  rwa [Std.ExtTreeMap.map_fst_toList_eq_keys, Std.ExtTreeMap.mem_keys] at hin

/-- No event brings in a name, but the registration of a datanode that has
introduced itself. -/
theorem namesReceived_step {sys : System} (h : sys.rm.NamesReceived) {event : ServerEvent}
    (hname : ∀ name session files replies, event = .register name session files replies →
      IsProcessName name) : (sys.step event).rm.NamesReceived := by
  cases event with
  | create filePath version origin fileData answer rollback =>
    rw [System.step]
    by_cases hcommit : sys.createCommits filePath version fileData answer
    · rw [(System.create_of_commits sys answer rollback filePath version origin fileData hcommit).2]
      refine ⟨fun n hn => h.endpoints n ?_, fun p n hn => ?_⟩
      · rwa [ReplicationManager.commitCreate, ReplicationManager.persistState,
          ReplicationManager.setFileVersion, ReplicationManager.addHolders_endpoints] at hn
      · rcases (ReplicationManager.mem_holders_commitCreate sys.rm).mp hn with ⟨-, hacked⟩ | hold
        · exact h.endpoints n (mem_endpoints_of_acked hacked)
        · exact h.holders p n hold
    · rw [(System.create_of_rejected sys answer rollback filePath version origin fileData
        hcommit).2]
      exact h
  | update filePath seen origin fileData answer =>
    rw [System.step]
    by_cases hcommit : sys.updateCommits filePath seen fileData answer
    · rw [(System.update_of_commits sys answer filePath seen origin fileData hcommit).2]
      exact ⟨h.endpoints, h.holders⟩
    · rw [(System.update_of_rejected sys answer filePath seen origin fileData hcommit).2]
      exact h
  | delete filePath origin answer =>
    rw [System.step]
    by_cases hcommit : sys.deleteCommits filePath answer
    · rw [System.delete_of_commits hcommit]
      exact ⟨h.endpoints, fun p n hn =>
        h.holders p n (sys.rm.mem_of_mem_holders_commitDelete hn)⟩
    · rw [System.delete_of_rejected hcommit]
      exact h
  | read filePath answer => exact h
  | register name session files replies =>
    have hreceived := hname name session files replies rfl
    refine ⟨fun n hn => ?_, fun p n hn => ?_⟩
    · rw [System.step, ReplicationManager.acceptDataNode_endpoints, Std.ExtTreeMap.mem_insert,
        Std.LawfulEqCmp.compare_eq_iff_eq] at hn
      rcases hn with rfl | hn
      · exact hreceived
      · exact h.endpoints n hn
    · rcases (ReplicationManager.mem_holders_acceptDataNode sys.rm).mp hn with ⟨-, rfl⟩ | hold
      · exact hreceived
      · exact h.holders p n hold
  | loseEndpoint name =>
    refine ⟨fun n hn => h.endpoints n ?_, h.holders⟩
    exact (Std.ExtTreeMap.mem_erase.mp hn).2
  | evict name answer =>
    obtain ⟨hends, hholders⟩ := System.evict_holders sys answer name
    refine ⟨fun n hn => h.endpoints n ?_, fun p n hn => ?_⟩
    · rwa [System.step, hends] at hn
    · rcases hholders p n hn with hold | ⟨-, hend⟩
      · exact h.holders p n (Std.ExtTreeMap.mem_erase.mp hold).2
      · exact h.endpoints n hend

theorem namesReceived_after {sys : System} (h : sys.rm.NamesReceived) {events : List ServerEvent}
    (hname : ∀ name session files replies, .register name session files replies ∈ events →
      IsProcessName name) : (sys.after events).rm.NamesReceived := by
  induction events generalizing sys with
  | nil => exact h
  | cons event events ih =>
    refine ih (namesReceived_step h fun name session files replies heq => ?_)
      fun name session files replies hmem => ?_
    · exact hname name session files replies (heq ▸ List.mem_cons_self)
    · exact hname name session files replies (List.mem_cons_of_mem _ hmem)

namespace StandbyLink

/-- A write of a client whose delta fits: a path of at most 65535 bytes and at
most 251 holders. -/
def SizedWrite (l : StandbyLink) (e : PrimaryEvent) : Prop :=
  e.event.isClientWrite = true ∧ ∀ c, l.sys.commit? e.event = some c →
    c.filePath.length ≤ 65535 ∧ c.holders.length ≤ 251

instance (l : StandbyLink) (e : PrimaryEvent) : Decidable (l.SizedWrite e) :=
  match h : l.sys.commit? e.event with
  | none => decidable_of_iff (e.event.isClientWrite = true) (by simp [SizedWrite, h])
  | some c =>
    decidable_of_iff (e.event.isClientWrite = true ∧ c.filePath.length ≤ 65535 ∧
      c.holders.length ≤ 251) (by simp [SizedWrite, h])

/-- The names in a delta are those of endpoints or holders. -/
theorem names_of_commit {sys : System} (h : sys.rm.NamesReceived) {event : ServerEvent} {c : Commit}
    (hcommit : sys.commit? event = some c) : ∀ n ∈ c.holders, IsProcessName n := by
  intro n hn
  cases event with
  | create filePath version origin fileData answer rollback =>
    simp only [System.commit?, Option.ite_none_right_eq_some, Option.some.injEq] at hcommit
    obtain ⟨-, rfl⟩ := hcommit
    exact h.endpoints n (mem_endpoints_of_acked hn)
  | update filePath seen origin fileData answer =>
    simp only [System.commit?, Option.ite_none_right_eq_some, Option.some.injEq] at hcommit
    obtain ⟨-, rfl⟩ := hcommit
    rw [Commit.holders, Std.ExtTreeMap.map_fst_toList_eq_keys, Std.ExtTreeMap.mem_keys] at hn
    exact h.holders filePath n hn
  | delete filePath origin answer =>
    simp only [System.commit?, Option.ite_none_right_eq_some, Option.some.injEq] at hcommit
    obtain ⟨-, rfl⟩ := hcommit
    simp [Commit.holders] at hn
  | read | register | loseEndpoint | evict => simp [System.commit?] at hcommit

/-- The standby takes the primary's frames, and the datanodes have introduced themselves. -/
structure Connected (l : StandbyLink) : Prop where
  fresh : l.standby.observedEpoch ≤ l.epoch
  names : l.sys.rm.NamesReceived

/-- A delete that throws and takes a file from the primary. -/
def LosesDelete (l : StandbyLink) (e : PrimaryEvent) : Prop :=
  ∃ filePath ∈ l.sys.rm.persistedVersionMap, l.sys.Throws e filePath

/-- One write: it goes through. -/
theorem connected_step {l : StandbyLink} (h : l.Connected) {e : PrimaryEvent}
    (hsized : l.SizedWrite e) :
    ∃ t, l.step e = some t ∧ t.sys = l.sys.stepOn e ∧ t.Connected := by
  obtain ⟨hwrite, hfits⟩ := hsized
  obtain ⟨-, hsys, hstep⟩ | ⟨filePath, -, -, hsys, hstep⟩ := l.step_eq e
  · have hnames : (l.sys.step e.event).rm.NamesReceived :=
      namesReceived_step h.names fun name session files replies heq => by
        rw [heq] at hwrite
        simp [ServerEvent.isClientWrite] at hwrite
    rw [hstep, hsys, plainStep]
    cases hcommit : l.sys.commit? e.event with
    | none => exact ⟨_, rfl, rfl, h.fresh, hnames⟩
    | some c =>
      obtain ⟨hpath, hcount⟩ := hfits c hcommit
      have hlengths : ∀ n ∈ c.holders, n.length ≤ 65535 := fun n hn =>
        (names_of_commit h.names hcommit n hn).length_le
      simp only
      rw [sendFrame_delta (l := { l with sys := l.sys.step e.event })
        (Commit.fits_deltaFields hpath hcount hlengths) h.fresh]
      exact ⟨_, rfl, rfl, UInt32.le_refl _, hnames⟩
  · refine ⟨_, hstep, rfl, h.fresh, ?_⟩
    show (l.sys.stepOn e).rm.NamesReceived
    rw [hsys]
    exact ⟨h.names.endpoints, fun p n hn =>
      h.names.holders p n (l.sys.rm.mem_of_mem_holders_commitDelete hn)⟩

theorem eq_erase_iff {α : Type} {m : StrMap α} {k : Bytes} : m = m.erase k ↔ k ∉ m := by
  constructor
  · intro heq hmem
    rw [heq] at hmem
    simp at hmem
  · intro hk
    refine Std.ExtTreeMap.ext_getElem? fun k' => ?_
    rw [Std.ExtTreeMap.getElem?_erase]
    split
    · rename_i hk'
      obtain rfl := Std.LawfulEqOrd.eq_of_compare hk'
      exact Std.ExtTreeMap.getElem?_eq_none hk
    · rfl

/-- **One write keeps the two maps equal exactly if it loses no delete.** -/
theorem versions_step {l t : StandbyLink} (hfresh : l.standby.observedEpoch ≤ l.epoch)
    (hversions : l.standby.versionMap = l.sys.rm.persistedVersionMap) {e : PrimaryEvent}
    (hwrite : e.event.isClientWrite = true) (ht : l.step e = some t) :
    t.standby.versionMap = t.sys.rm.persistedVersionMap ↔ ¬ l.LosesDelete e := by
  obtain ⟨hthrows, -, hstep⟩ | ⟨filePath, hthrows, -, hsys, hstep⟩ := l.step_eq e
  · refine iff_of_true ?_ fun ⟨filePath, _, h⟩ => hthrows filePath h
    have hafter := persistedVersionMap_clientWrite l.sys hwrite
    rw [hstep, plainStep] at ht
    cases hcommit : l.sys.commit? e.event with
    | none =>
      rw [hcommit] at ht hafter
      obtain rfl := Option.some.inj ht
      exact hversions.trans hafter.symm
    | some c =>
      rw [hcommit] at ht hafter
      simp only at ht
      have hfits := fits_of_sendFrame (l := { l with sys := l.sys.step e.event }) ht
      rw [sendFrame_delta (l := { l with sys := l.sys.step e.event }) hfits hfresh] at ht
      obtain rfl := Option.some.inj ht
      simp only [hversions]
      exact hafter.symm
  · -- the standby keeps the entry that the primary erases
    rw [hstep] at ht
    obtain rfl := Option.some.inj ht
    have hafter : (l.sys.stepOn e).rm.persistedVersionMap
        = l.sys.rm.persistedVersionMap.erase filePath := by
      rw [hsys]
      rfl
    simp only [hafter, hversions, eq_erase_iff, LosesDelete]
    constructor
    · rintro hgone ⟨filePath', hmem, h⟩
      obtain rfl := hthrows.unique h
      exact hgone hmem
    · intro hlost hmem
      exact hlost ⟨filePath, hmem, hthrows⟩

/-- Every state of a run of writes is connected. -/
theorem connected_run {l : StandbyLink} {events : List PrimaryEvent} (h : l.Connected)
    (hsized : Runs.Meets step SizedWrite l events) :
    ∃ t, Runs.run step l events = some t ∧ t.sys = events.foldl System.stepOn l.sys ∧
      t.Connected := by
  induction events generalizing l with
  | nil => exact ⟨l, rfl, rfl, h⟩
  | cons e events ih =>
    obtain ⟨u, hu, husys, hconnected⟩ := connected_step h hsized.1
    obtain ⟨t, ht, htsys, htconnected⟩ := ih hconnected (hsized.2 u hu)
    refine ⟨t, ?_, ?_, htconnected⟩
    · rw [Runs.run, hu, Option.bind_some, ht]
    · rw [htsys, husys]
      rfl

/-- **When the standby's versions simulate the primary's.**  From a standby that has the
primary's version map and has not observed a higher epoch, every sequence of CREATE, UPDATE and
DELETE requests goes through, whatever the datanodes answer, and the standby has the primary's
version map in every state exactly if no delete takes a file from the primary and throws. -/
theorem standby_versions_iff {l : StandbyLink} {events : List PrimaryEvent}
    (hversions : l.standby.versionMap = l.sys.rm.persistedVersionMap)
    (hepoch : l.standby.observedEpoch ≤ l.epoch) (hnames : l.sys.rm.NamesReceived)
    (hsized : Runs.Meets step SizedWrite l events) :
    (∃ t, Runs.run step l events = some t ∧ t.sys = events.foldl System.stepOn l.sys) ∧
      ((∀ pre post t, events = pre ++ post → Runs.run step l pre = some t →
          t.standby.versionMap = t.sys.rm.persistedVersionMap) ↔
        ∀ pre e post t, events = pre ++ e :: post → Runs.run step l pre = some t →
          ¬ t.LosesDelete e) := by
  have hconnected : l.Connected := ⟨hepoch, hnames⟩
  obtain ⟨t, ht, htsys, -⟩ := connected_run hconnected hsized
  refine ⟨⟨t, ht, htsys⟩, ?_⟩
  have hprefix : ∀ pre e post t, events = pre ++ e :: post → Runs.run step l pre = some t →
      t.Connected ∧ t.SizedWrite e := by
    intro pre e post t hsplit hrun
    obtain ⟨hbefore, hafter⟩ := Runs.Meets.split (hsplit ▸ hsized)
    obtain ⟨t', ht', -, hconnected'⟩ := connected_run hconnected hbefore
    obtain rfl : t = t' := Option.some.inj (hrun.symm.trans ht')
    exact ⟨hconnected', (hafter t hrun).1⟩
  refine Runs.always_iff_of_refused (P := fun _ (t : StandbyLink) => t.standby.versionMap
    = t.sys.rm.persistedVersionMap) (fun t e hnone => ?_) hversions ?_
  · rintro ⟨filePath, -, hthrows⟩
    obtain ⟨hnot, -⟩ | ⟨_, -, -, -, hstep⟩ := t.step_eq e
    · exact hnot filePath hthrows
    · rw [hstep] at hnone
      cases hnone
  · intro pre e post t u hsplit hrun hsame hu
    obtain ⟨hconn, hsize⟩ := hprefix pre e post t hsplit hrun
    exact versions_step hconn.fresh hsame hsize.1 hu

/-- A primary with one datanode, and its standby. -/
def oneDataNode : StandbyLink where
  sys :=
    { rm := (ReplicationManager.start 1 none).acceptDataNode [100] 0 ∅ []
      nodes := fun _ _ => none }
  epoch := 1
  nextSeq := 0
  standby := Watcher.start none

theorem namesReceived_oneDataNode : oneDataNode.sys.rm.NamesReceived := by
  have hname : IsProcessName [100] :=
    ⟨[0x53, 0x51, 0xFF, 1, 1, 0, 0, 0, 0, 0, 0, 0, 0, 4, 0, 1, 100],
      { opcode := .response, flags := 1, fields := [⟨.processName, [100]⟩] }, by decide, by decide⟩
  let start : System := { rm := ReplicationManager.start 1 none, nodes := fun _ _ => none }
  have hstart : start.rm.NamesReceived := ReplicationManager.namesReceived_start 1 none
  show (start.step (.register [100] 0 ∅ [])).rm.NamesReceived
  refine namesReceived_step hstart fun name session files replies heq => ?_
  obtain rfl : [100] = name := by injection heq
  exact hname

/-- A file is created, an update of it is refused by the datanode and so misses
its quorum, and the file is deleted. -/
theorem standby_versions_create_delete :
    let events : List PrimaryEvent :=
      [⟨.create [97] 3 [99] [120] (fun _ _ => .acked) (fun _ _ => .acked), none⟩,
       ⟨.update [97] 0 [99] [121] (fun _ _ => .refused), none⟩,
       ⟨.delete [97] [99] fun _ _ => .acked, none⟩]
    ∃ t, Runs.run step oneDataNode events = some t ∧
      t.standby.versionMap = t.sys.rm.persistedVersionMap := by
  intro events
  have hsized : Runs.Meets step SizedWrite oneDataNode events := by decide
  obtain ⟨⟨t, ht, -⟩, hiff⟩ := standby_versions_iff rfl (by decide) namesReceived_oneDataNode hsized
  refine ⟨t, ht, hiff.mpr (fun pre e post u hsplit _ => ?_) events [] t (by simp) ht⟩
  rintro ⟨filePath, -, hthrown, -⟩
  have hmem : e ∈ events := by simp [hsplit]
  have hnone : ∀ e ∈ events, e.removeError = none := by simp [events]
  exact hthrown (hnone e hmem)

/-- **A file that stays on the standby.**  An update of `.squid` is committed, since no
datanode holds it; the delete of `.squid` erases it and throws, as the directory of that name is
not empty. -/
theorem deleted_file_stays :
    let path : Bytes := ascii ['.', 's', 'q', 'u', 'i', 'd']
    let events : List PrimaryEvent :=
      [⟨.update path 0 [99] [120] (fun _ _ => .acked), none⟩,
       ⟨.delete path [99] (fun _ _ => .acked), some "Directory not empty"⟩]
    (Runs.run step oneDataNode events).map (fun t =>
        (t.sys.rm.persistedVersionMap[path]?, t.standby.versionMap[path]?))
      = some (none, some 1) := by
  decide

end StandbyLink

end Squid
