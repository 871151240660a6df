/-
A standby that joins while writes are being committed.

`registerStandby` collects the version map, sends it as a snapshot, and only
then puts the session into `standbys_`.  A write commits to
`persistedVersionMap_` and sends its delta in a second step.  An interleaving
is given by the steps that the calls take before the map is collected, before
the snapshot is sent, before the session is inserted, and after that.  A frame
of more than 255 fields cannot be built: a snapshot then ends the registration,
a delta the process.

* `standby_versionMap` — what the standby holds in the end: the snapshot as it
  reads it, overwritten by the deltas sent after the insertion;
* `snapMap_of_words` — the snapshot is read as it was meant when no path has a
  blank in it;
* `joining_standby_iff` — exactly when the standby has the primary's map;
* `joining_standby_misses_commit` — a commit that falls between the collection
  and the insertion.
-/
import SquidStorage.Failover
import SquidStorage.Runs

open BigEndian TextStream LastWrite

namespace Squid

/-! ### The steps of the calls -/

/-- The two kinds of commits: of a create or an update, and of a delete. -/
inductive Commit where
  | put (filePath : Bytes) (version : Int32) (holders : List Bytes)
  | del (filePath : Bytes)
deriving DecidableEq

namespace Commit

def apply (versionMap : StrMap Int32) : Commit → StrMap Int32
  | .put filePath version _ => versionMap.insert filePath version
  | .del filePath => versionMap.erase filePath

/-- The frame of the delta that follows. -/
def deltaFormat (epoch : UInt32) : Commit → Except String Bytes
  | .put filePath version holders => stateDeltaFormat 0 filePath version holders epoch
  | .del filePath => stateDeltaFormat 1 filePath 0 [] epoch

def deltaFields (epoch : UInt32) : Commit → List BinaryField
  | .put filePath version holders => stateDeltaFields 0 filePath version holders epoch
  | .del filePath => stateDeltaFields 1 filePath 0 [] epoch

theorem deltaFormat_eq (c : Commit) (epoch : UInt32) :
    c.deltaFormat epoch = buildFrame .stateDelta 0 (c.deltaFields epoch) := by
  cases c <;> rfl

def write : Commit → Write Bytes Int32
  | .put filePath version _ => .put filePath version
  | .del filePath => .del filePath

theorem look_apply (c : Commit) (versionMap : StrMap Int32) :
    look (c.apply versionMap) = c.write.apply (look versionMap) := by
  cases c with
  | put filePath version holders => exact look_insert versionMap filePath version
  | del filePath => exact look_erase versionMap filePath

end Commit

inductive CallStep where
  /-- the section that writes `persistedVersionMap_` -/
  | commit (c : Commit)
  /-- the `sendDelta` of a call that has committed -/
  | sendDelta (c : Commit)
deriving DecidableEq

/-- The commits of a stretch of the run. -/
def commits (steps : List CallStep) : List Commit :=
  steps.filterMap fun
    | .commit c => some c
    | .sendDelta _ => none

@[inherit_doc commits]
def deltas (steps : List CallStep) : List Commit :=
  steps.filterMap fun
    | .commit _ => none
    | .sendDelta c => some c

/-- The primary, as far as one standby is concerned. -/
structure Primary where
  persistedVersionMap : StrMap Int32 := ∅
  /-- the calls that have committed and not yet sent their delta -/
  pending : List Commit := []
  /-- the session is in `standbys_` -/
  registered : Bool := false
  nextSeq : UInt32 := 0
  /-- the frames written to the standby's session -/
  sent : List Bytes := []
  /-- an exception has left the worker of a session, and with it the process ends -/
  terminated : Bool := false

namespace Primary

/-- `SquidProtocol::sendFrame` on the worker of the session. -/
def sendFrame (s : Primary) (frame : Bytes) : Primary :=
  { s with nextSeq := s.nextSeq + 1, sent := s.sent ++ [stampSeq frame s.nextSeq] }

/-- A delta is sent by a posted task: nobody catches what it throws. -/
def step (epoch : UInt32) (s : Primary) (e : CallStep) : Option Primary :=
  if s.terminated then some s
  else match e with
    | .commit c => some
      { s with persistedVersionMap := c.apply s.persistedVersionMap, pending := c :: s.pending }
    | .sendDelta c =>
      if c ∈ s.pending then
        let s := { s with pending := s.pending.erase c }
        if s.registered then
          match c.deltaFormat epoch with
          | .ok frame => some (s.sendFrame frame)
          | .error _ => some { s with terminated := true }
        else some s
      else none

/-- `registerStandby`, with the steps of the calls around its own.  The snapshot is sent by a
call: what it throws leaves `registerStandby`, and the session is not inserted. -/
def registerStandby (epoch : UInt32) (repMap : StrMap StrSet)
    (before collecting sending after : List CallStep) (s : Primary) : Option Primary := do
  let s ← Runs.run (step epoch) s before
  let versionMap := s.persistedVersionMap
  let s ← Runs.run (step epoch) s collecting
  match stateSnapFormat versionMap repMap epoch with
  | .error _ => Runs.run (step epoch) s (sending ++ after)
  | .ok frame =>
    let s ← Runs.run (step epoch) (s.sendFrame frame) sending
    Runs.run (step epoch) { s with registered := true } after

end Primary

/-! ### What the frames say -/

/-- The messages that the standby parses. -/
def received (frames : List Bytes) : List Message :=
  frames.filterMap fun frame => (parseMessage frame).toOption

/-- The standby's watcher after all frames have been delivered. -/
def Watcher.deliver (w : Watcher) (frames : List Bytes) : Watcher :=
  (received frames).foldl Watcher.handleFrame w

/-- The frames are a leader's, of this epoch, and write `writes`. -/
def Carries (epoch : UInt32) (frames : List Bytes) (writes : List (Write Bytes Int32)) : Prop :=
  (received frames).map frameWrite = writes ∧
    ∀ msg ∈ received frames, Watcher.fromLeader msg = true ∧ msg.epoch = epoch

theorem Carries.concat {epoch : UInt32} {frames : List Bytes} {writes : List (Write Bytes Int32)}
    (h : Carries epoch frames writes) {frame : Bytes} {msg : Message}
    (hparse : parseMessage frame = .ok msg) (hleader : Watcher.fromLeader msg = true)
    (hepoch : msg.epoch = epoch) :
    Carries epoch (frames ++ [frame]) (writes ++ [frameWrite msg]) := by
  have hreceived : received (frames ++ [frame]) = received frames ++ [msg] := by
    simp [received, hparse, Except.toOption]
  rw [Carries, hreceived]
  refine ⟨by rw [List.map_append, h.1, List.map_singleton], fun m hm => ?_⟩
  rcases List.mem_append.mp hm with hold | hnew
  · exact h.2 m hold
  · obtain rfl := List.mem_singleton.mp hnew
    exact ⟨hleader, hepoch⟩

theorem acceptedFrames_of_epoch {epoch observed : UInt32} {msgs : List Message}
    (h : ∀ msg ∈ msgs, Watcher.fromLeader msg = true ∧ msg.epoch = epoch)
    (hle : observed ≤ epoch) : acceptedFrames observed msgs = msgs := by
  induction msgs generalizing observed with
  | nil => rfl
  | cons msg msgs ih =>
    obtain ⟨hleader, hepoch⟩ := h msg List.mem_cons_self
    have hrest : acceptedFrames epoch msgs = msgs :=
      ih (fun m hm => h m (List.mem_cons_of_mem _ hm)) (UInt32.le_refl epoch)
    rw [acceptedFrames, hleader, hepoch, if_pos (by simpa using hle), hrest]

theorem acceptedFrames_of_stale {epoch observed : UInt32} {msgs : List Message}
    (h : ∀ msg ∈ msgs, msg.epoch = epoch) (hlt : ¬ observed ≤ epoch) :
    acceptedFrames observed msgs = [] := by
  induction msgs with
  | nil => rfl
  | cons msg msgs ih =>
    have hepoch := h msg List.mem_cons_self
    rw [acceptedFrames, hepoch, if_neg (by simp [hlt]),
      ih fun m hm => h m (List.mem_cons_of_mem _ hm)]

/-- A standby that is not ahead of the leader applies every frame, any other
one none. -/
theorem look_deliver {epoch : UInt32} {frames : List Bytes} {writes : List (Write Bytes Int32)}
    (h : Carries epoch frames writes) (w : Watcher) :
    look (w.deliver frames).versionMap
      = if w.observedEpoch ≤ epoch then replay (look w.versionMap) writes
        else look w.versionMap := by
  rw [Watcher.deliver, look_foldl_handleFrame]
  split
  · rename_i hle
    rw [acceptedFrames_of_epoch h.2 hle, h.1]
  · rename_i hlt
    rw [acceptedFrames_of_stale (fun msg hmsg => (h.2 msg hmsg).2) hlt]
    rfl

/-- What the standby reads in the fields of a delta. -/
theorem delta_fields (op : UInt8) (filePath : Bytes) (version : Int32) (holders : List Bytes)
    (epoch seq : UInt32) :
    let msg : Message := { opcode := .stateDelta, seq := seq,
                           fields := stateDeltaFields op filePath version holders epoch }
    msg.epoch = epoch ∧ Watcher.deltaOp msg = op ∧ msg.getString .filePath [] = filePath ∧
      toInt32 (msg.getUint32 .fileVersion 0) = version := by
  simp [Message.epoch, Message.getUint32, Message.getString, Message.findField, Watcher.deltaOp,
    stateDeltaFields, fieldUint32, fieldString, FieldID.epoch, FieldID.deltaOp, FieldID.filePath,
    FieldID.fileVersion]

theorem delta_holders (op : UInt8) (filePath : Bytes) (version : Int32) (holders : List Bytes)
    (epoch : UInt32) :
    ((stateDeltaFields op filePath version holders epoch).filter fun f =>
      f.id = .datanodeName).map BinaryField.value = holders := by
  have hnames : (holders.map fun dn => fieldString .datanodeName dn).filter
      (fun f => f.id = .datanodeName) = holders.map fun dn => fieldString .datanodeName dn :=
    List.filter_eq_self.mpr fun f hf => by
      obtain ⟨dn, -, rfl⟩ := List.mem_map.mp hf
      simp [fieldString]
  have hvalues : (holders.map fun dn => fieldString .datanodeName dn).map BinaryField.value
      = holders := by
    rw [List.map_map]
    exact List.map_id _
  -- the four leading fields have other ids
  have hhead : (stateDeltaFields op filePath version holders epoch).filter
      (fun f => f.id = .datanodeName) = (holders.map fun dn =>
        fieldString .datanodeName dn).filter fun f => f.id = .datanodeName := by
    simp only [stateDeltaFields, List.filter_cons, fieldUint32, fieldString, FieldID.epoch,
      FieldID.deltaOp, FieldID.filePath, FieldID.fileVersion, FieldID.datanodeName]
    rfl
  rw [hhead, hnames, hvalues]

/-- A delta says what its commit did. -/
theorem frameWrite_delta (c : Commit) (epoch seq : UInt32) :
    let msg : Message := { opcode := .stateDelta, seq := seq, fields := c.deltaFields epoch }
    msg.epoch = epoch ∧ frameWrite msg = c.write := by
  cases c with
  | put filePath version holders =>
    obtain ⟨hepoch, hop, hpath, hversion⟩ := delta_fields 0 filePath version holders epoch seq
    refine ⟨hepoch, ?_⟩
    simp only [frameWrite, Commit.deltaFields, hop, hpath, hversion]
    rfl
  | del filePath =>
    obtain ⟨hepoch, hop, hpath, -⟩ := delta_fields 1 filePath 0 [] epoch seq
    refine ⟨hepoch, ?_⟩
    simp only [frameWrite, Commit.deltaFields, hop, hpath]
    rfl

/-- What the standby reads of a snapshot: the entries, packed and parsed. -/
def snapMap (versionMap : StrMap Int32) (repMap : StrMap StrSet) : StrMap Int32 :=
  (versionMap.toList.filterMap fun e => parseSnapEntry (snapEntry e.1 e.2 repMap[e.1]?)).foldl
    (fun (m : StrMap Int32) e => m.insert e.1 e.2.1) ∅

theorem snapEntries_snap (versionMap : StrMap Int32) (repMap : StrMap StrSet)
    (epoch seq : UInt32) :
    Watcher.snapEntries { opcode := .stateSnap, seq := seq,
                          fields := stateSnapFields versionMap repMap epoch }
      = versionMap.toList.filterMap fun e => parseSnapEntry (snapEntry e.1 e.2 repMap[e.1]?) := by
  simp only [Watcher.snapEntries, stateSnapFields, List.filterMap_cons, List.filterMap_map]
  rfl

theorem frameWrite_snap (versionMap : StrMap Int32) (repMap : StrMap StrSet) (epoch seq : UInt32) :
    let msg : Message := { opcode := .stateSnap, seq := seq,
                           fields := stateSnapFields versionMap repMap epoch }
    msg.epoch = epoch ∧ frameWrite msg = .all (look (snapMap versionMap repMap)) := by
  intro msg
  have hepoch : msg.epoch = epoch := by
    simp [msg, Message.epoch, Message.getUint32, Message.findField, stateSnapFields, fieldUint32]
  refine ⟨hepoch, ?_⟩
  show Write.all (look ((Watcher.snapEntries msg).foldl (fun m e => m.insert e.1 e.2.1) ∅)) = _
  rw [snapEntries_snap]
  rfl

/-- The entries of a snapshot, packed, parsed and inserted one by one. -/
theorem foldl_parseSnapEntry (repMap : StrMap StrSet) (entries : List (Bytes × Int32))
    (hwords : ∀ e ∈ entries, IsWord e.1) (m : StrMap Int32) :
    (entries.filterMap fun e => parseSnapEntry (snapEntry e.1 e.2 repMap[e.1]?)).foldl
        (fun (m : StrMap Int32) e => m.insert e.1 e.2.1) m
      = entries.foldl (fun (m : StrMap Int32) e => m.insert e.1 e.2) m := by
  induction entries generalizing m with
  | nil => rfl
  | cons e entries ih =>
    obtain ⟨dns, hparse⟩ := parseSnapEntry_snapEntry (hwords e List.mem_cons_self) e.2 repMap[e.1]?
    rw [List.filterMap_cons, hparse, List.foldl_cons, List.foldl_cons]
    exact ih (fun e' he' => hwords e' (List.mem_cons_of_mem _ he')) _

/-- **A snapshot says what was collected**, as long as every path is one word. -/
theorem snapMap_of_words {versionMap : StrMap Int32} (repMap : StrMap StrSet)
    (hwords : ∀ (p : Bytes) (v : Int32), versionMap[p]? = some v → IsWord p) :
    snapMap versionMap repMap = versionMap := by
  have hwords' : ∀ e ∈ versionMap.toList, IsWord e.1 := fun e he =>
    hwords e.1 e.2 (Std.ExtTreeMap.mem_toList_iff_getElem?_eq_some.mp he)
  refine Std.ExtTreeMap.ext_getElem? fun p => ?_
  rw [snapMap, foldl_parseSnapEntry repMap _ hwords']
  exact congrFun (look_foldl_toList versionMap) p

/-! ### Stretches of the run -/

namespace Primary

/-- A frame that has been sent is the last one to arrive. -/
theorem carries_sendFrame {s : Primary} {epoch : UInt32} {writes : List (Write Bytes Int32)}
    {opcode : Opcode} {fields : List BinaryField} {frame : Bytes} {w : Write Bytes Int32}
    (hs : Carries epoch s.sent writes) (hframe : buildFrame opcode 0 fields = .ok frame)
    (hleader : ∀ seq, Watcher.fromLeader { opcode := opcode, seq := seq, fields := fields } = true)
    (hmsg : ∀ seq, let msg : Message := { opcode := opcode, seq := seq, fields := fields }
      msg.epoch = epoch ∧ frameWrite msg = w) :
    Carries epoch (s.sendFrame frame).sent (writes ++ [w]) := by
  have hparse := parseMessage_stampSeq hframe s.nextSeq
  obtain ⟨hepoch, hwrite⟩ := hmsg s.nextSeq
  rw [← hwrite]
  exact hs.concat hparse (hleader s.nextSeq) hepoch

/-- **What one step does**: nothing once the process has ended, a commit, a delta that is lost
or sent, or one that cannot be built. -/
theorem step_cases {epoch : UInt32} {s t : Primary} {e : CallStep}
    (h : step epoch s e = some t) :
    (s.terminated = true ∧ t = s) ∨ s.terminated = false ∧
      ((∃ c, e = .commit c ∧ t = { s with
          persistedVersionMap := c.apply s.persistedVersionMap, pending := c :: s.pending }) ∨
        ∃ c, e = .sendDelta c ∧
          ((s.registered = false ∧ t = { s with pending := s.pending.erase c }) ∨
            (s.registered = true ∧ Fits (c.deltaFields epoch) ∧
              ∃ frame, buildFrame .stateDelta 0 (c.deltaFields epoch) = .ok frame ∧
                t = { s with pending := s.pending.erase c }.sendFrame frame) ∨
            (s.registered = true ∧ ¬ Fits (c.deltaFields epoch) ∧ t.terminated = true))) := by
  rw [step.eq_def] at h
  split at h
  · rename_i hend
    exact .inl ⟨hend, (Option.some.inj h).symm⟩
  rename_i halive
  refine .inr ⟨Bool.eq_false_iff.mpr halive, ?_⟩
  split at h
  · rename_i c
    exact .inl ⟨c, rfl, (Option.some.inj h).symm⟩
  · rename_i c
    refine .inr ⟨c, rfl, ?_⟩
    have hfits := buildFrame_eq_ok_iff .stateDelta 0 (c.deltaFields epoch) 0
    split at h
    · by_cases hreg : s.registered = true
      · simp only [if_pos hreg, Commit.deltaFormat_eq] at h
        split at h
        · rename_i frame hframe
          exact .inr (.inl ⟨hreg, hfits.mp ⟨frame, hframe⟩, frame, hframe,
            (Option.some.inj h).symm⟩)
        · rename_i error herror
          refine .inr (.inr ⟨hreg, fun hfit => ?_, by rw [← Option.some.inj h]⟩)
          obtain ⟨frame, hframe⟩ := hfits.mpr hfit
          rw [herror] at hframe
          cases hframe
      · simp only [if_neg hreg] at h
        exact .inl ⟨Bool.eq_false_iff.mpr hreg, (Option.some.inj h).symm⟩
    · simp at h

/-- Nothing happens once the process has ended. -/
theorem run_terminated {epoch : UInt32} {steps : List CallStep} {s t : Primary}
    (hrun : Runs.run (step epoch) s steps = some t) (hend : s.terminated = true) : t = s := by
  induction steps generalizing s with
  | nil => exact (Option.some.inj hrun).symm
  | cons e steps ih =>
    obtain ⟨u, hu, hrest⟩ := Runs.run_cons hrun
    rw [step.eq_def, if_pos hend] at hu
    obtain rfl := Option.some.inj hu
    exact ih hrest hend

/-- The deltas of a stretch that reach a session can all be built. -/
def DeltasFit (epoch : UInt32) (registered : Bool) (steps : List CallStep) : Prop :=
  registered = true → ∀ c ∈ deltas steps, Fits (c.deltaFields epoch)

/-- What the steps of the calls do to the map and to the standby's session. -/
theorem run_calls {epoch : UInt32} {steps : List CallStep} {s t : Primary}
    {writes : List (Write Bytes Int32)} (hrun : Runs.run (step epoch) s steps = some t)
    (halive : s.terminated = false) (hs : Carries epoch s.sent writes) :
    (t.terminated = true ∧ ¬ DeltasFit epoch s.registered steps) ∨
      (t.terminated = false ∧ DeltasFit epoch s.registered steps ∧
        look t.persistedVersionMap
          = replay (look s.persistedVersionMap) ((commits steps).map Commit.write) ∧
        t.registered = s.registered ∧
        Carries epoch t.sent
          (writes ++ if s.registered then (deltas steps).map Commit.write else [])) := by
  -- step by step: a commit changes the map only, a delta the session only
  induction steps generalizing s writes with
  | nil =>
    obtain rfl : s = t := Option.some.inj hrun
    exact .inr ⟨halive, fun _ c hc => by simp [deltas] at hc, rfl, rfl, by simpa [deltas] using hs⟩
  | cons e steps ih =>
    obtain ⟨u, hu, hrest⟩ := Runs.run_cons hrun
    obtain ⟨hend, -⟩ | ⟨-, ⟨c, rfl, rfl⟩ | ⟨c, rfl, ⟨hreg, rfl⟩ |
      ⟨hreg, hfit, frame, hframe, rfl⟩ | ⟨hreg, hfit, hend⟩⟩⟩ := step_cases hu
    · rw [halive] at hend
      cases hend
    · obtain hleft | ⟨hterm, hsend, hmap, hreg, hsent⟩ := ih hrest halive hs
      · exact .inl hleft
      · refine .inr ⟨hterm, hsend, ?_, hreg, hsent⟩
        rw [hmap, Commit.look_apply]
        rfl
    · -- the standby is not in `standbys_`: its delta is lost
      obtain ⟨-, hnot⟩ | ⟨hterm, -, hmap, hreg', hsent⟩ := ih hrest halive hs
      · exact absurd (fun h => absurd (hreg.symm.trans h) (by decide)) hnot
      · refine .inr ⟨hterm, fun h => absurd (hreg.symm.trans h) (by decide), hmap, hreg', ?_⟩
        simpa [hreg] using hsent
    · have hsent' := carries_sendFrame (s := { s with pending := s.pending.erase c }) hs hframe
        (fun _ => rfl) (frameWrite_delta c epoch)
      have hiff : DeltasFit epoch s.registered (.sendDelta c :: steps)
          ↔ DeltasFit epoch s.registered steps := by
        simp [DeltasFit, deltas, hfit]
      rw [hiff]
      obtain hleft | ⟨hterm, hsend, hmap, hreg', hsent⟩ := ih hrest halive hsent'
      · exact .inl hleft
      · refine .inr ⟨hterm, hsend, hmap, hreg', ?_⟩
        have hreg'' : ({ s with pending := s.pending.erase c }.sendFrame frame).registered
            = true := hreg
        rw [hreg'', if_pos rfl] at hsent
        rw [if_pos hreg]
        simpa [deltas] using hsent
    · -- the frame throws in the posted task
      obtain rfl := run_terminated hrest hend
      exact .inl ⟨hend, fun h => hfit (h hreg c (by simp [deltas]))⟩

/-- A stretch before the insertion. -/
theorem run_unregistered {epoch : UInt32} {steps : List CallStep} {s t : Primary}
    {writes : List (Write Bytes Int32)} (hrun : Runs.run (step epoch) s steps = some t)
    (halive : s.terminated = false) (hreg : s.registered = false)
    (hs : Carries epoch s.sent writes) :
    t.terminated = false ∧ t.registered = false ∧
      look t.persistedVersionMap
        = replay (look s.persistedVersionMap) ((commits steps).map Commit.write) ∧
      Carries epoch t.sent writes := by
  obtain ⟨-, hnot⟩ | ⟨hterm, -, hmap, hreg', hsent⟩ := run_calls hrun halive hs
  · exact absurd (fun h => absurd (hreg.symm.trans h) (by decide)) hnot
  · rw [hreg] at hreg' hsent
    exact ⟨hterm, hreg', hmap, by simpa using hsent⟩

/-! ### The whole registration -/

/-- A primary with some files and without this standby. -/
def start (versionMap : StrMap Int32) (seq : UInt32) : Primary :=
  { persistedVersionMap := versionMap, nextSeq := seq }

/-- The map that `registerStandby` collects. -/
def collected (versionMap : StrMap Int32) (before : List CallStep) : StrMap Int32 :=
  (commits before).foldl Commit.apply versionMap

theorem look_collected (versionMap : StrMap Int32) (before : List CallStep) :
    look (collected versionMap before)
      = replay (look versionMap) ((commits before).map Commit.write) := by
  rw [collected]
  induction commits before generalizing versionMap with
  | nil => rfl
  | cons c cs ih =>
    rw [List.foldl_cons, ih, Commit.look_apply]
    rfl

variable {epoch seq : UInt32} {versionMap : StrMap Int32} {repMap : StrMap StrSet}
  {before collecting sending after : List CallStep} {t : Primary} {w : Watcher}

/-- The snapshot can be built: it has at most 255 fields, each of at most 65535 bytes. -/
def SnapFits (epoch : UInt32) (versionMap : StrMap Int32) (repMap : StrMap StrSet) : Prop :=
  Fits (stateSnapFields versionMap repMap epoch)

instance : Decidable (SnapFits epoch versionMap repMap) := inferInstanceAs (Decidable (Fits _))

/-- The whole registration: the process ends at a delta that cannot be built, or this is the map
of the primary and what the standby is sent. -/
theorem registerStandby_spec
    (hrun : registerStandby epoch repMap before collecting sending after (start versionMap seq)
      = some t) :
    let snapFits := SnapFits epoch (collected versionMap before) repMap
    (t.terminated = true ∧ ¬ DeltasFit epoch (decide snapFits) after) ∨
      (t.terminated = false ∧ DeltasFit epoch (decide snapFits) after ∧
        look t.persistedVersionMap = replay (look (collected versionMap before))
          ((commits (collecting ++ sending ++ after)).map Commit.write) ∧
        Carries epoch t.sent (if snapFits then
          .all (look (snapMap (collected versionMap before) repMap)) ::
            (deltas after).map Commit.write else [])) := by
  intro snapFits
  simp only [registerStandby, bind, Option.bind_eq_some_iff] at hrun
  obtain ⟨s₁, h₁, s₂, h₂, h₃⟩ := hrun
  have hempty : Carries epoch (start versionMap seq).sent [] := ⟨rfl, by simp [start, received]⟩
  obtain ⟨hterm₁, hreg₁, hmap₁, hsent₁⟩ := run_unregistered h₁ rfl rfl hempty
  obtain ⟨hterm₂, hreg₂, hmap₂, hsent₂⟩ := run_unregistered h₂ hterm₁ hreg₁ hsent₁
  have hcollected : s₁.persistedVersionMap = collected versionMap before := by
    refine Std.ExtTreeMap.ext_getElem? fun p => ?_
    exact congrFun (hmap₁.trans (look_collected versionMap before).symm) p
  rw [hcollected] at h₃ hmap₂
  have hcommits : ∀ l l' : List CallStep, commits (l ++ l') = commits l ++ commits l' :=
    fun l l' => List.filterMap_append
  have hfits := buildFrame_eq_ok_iff .stateSnap 0
    (stateSnapFields (collected versionMap before) repMap epoch) 0
  split at h₃
  · -- the snapshot cannot be built: the session is never inserted
    rename_i error herror
    have hnot : ¬ snapFits := by
      intro hfit
      obtain ⟨frame, hframe⟩ := hfits.mpr hfit
      rw [show stateSnapFormat (collected versionMap before) repMap epoch = .ok frame from hframe]
        at herror
      cases herror
    obtain ⟨hterm₃, -, hmap₃, hsent₃⟩ := run_unregistered h₃ hterm₂ hreg₂ hsent₂
    refine .inr ⟨hterm₃, fun h => absurd (of_decide_eq_true h) hnot, ?_, ?_⟩
    · rw [hmap₃, hmap₂, List.append_assoc, hcommits collecting, List.map_append, replay_append]
    · rwa [if_neg hnot]
  · rename_i frame hframe
    have hfit : snapFits := hfits.mp ⟨frame, hframe⟩
    obtain ⟨s₃, h₃, h₄⟩ := Option.bind_eq_some_iff.mp h₃
    have hsnap := carries_sendFrame hsent₂ hframe (fun _ => rfl)
      (frameWrite_snap (collected versionMap before) repMap epoch)
    obtain ⟨hterm₃, -, hmap₃, hsent₃⟩ := run_unregistered h₃ hterm₂ hreg₂ hsnap
    rw [decide_eq_true hfit, if_pos hfit]
    obtain hleft | ⟨hterm, hsend, hmap, -, hsent⟩ :=
      run_calls (s := { s₃ with registered := true }) h₄ hterm₃ hsent₃
    · exact .inl hleft
    · refine .inr ⟨hterm, hsend, ?_, by simpa using hsent⟩
      have hmap₃' : look s₃.persistedVersionMap = replay (look s₂.persistedVersionMap)
        ((commits sending).map Commit.write) := hmap₃
      rw [hmap, hmap₃', hmap₂, hcommits, hcommits, List.map_append, List.map_append, replay_append,
        replay_append]

/-- **What the standby holds**: the snapshot, overwritten by the deltas sent
after the insertion; or what it held before, when it has observed a higher epoch or no snapshot
could be built. -/
theorem standby_versionMap
    (hrun : registerStandby epoch repMap before collecting sending after (start versionMap seq)
      = some t) (hterm : t.terminated = false) (w : Watcher) :
    look (w.deliver t.sent).versionMap
      = if w.observedEpoch ≤ epoch ∧ SnapFits epoch (collected versionMap before) repMap then
          replay (look (snapMap (collected versionMap before) repMap))
            ((deltas after).map Commit.write)
        else look w.versionMap := by
  obtain ⟨hend, -⟩ | ⟨-, -, -, hsent⟩ := registerStandby_spec hrun
  · rw [hterm] at hend
    cases hend
  · rw [look_deliver hsent w]
    by_cases hfit : SnapFits epoch (collected versionMap before) repMap
    · simp only [hfit, and_true]
      rfl
    · simp only [hfit, and_false, if_false]
      exact ite_self _

/-- What the last of some calls that is about a path says of it, `dflt` when
none is. -/
def lastSaid (calls : List Commit) (p : Bytes) (dflt : Option Int32) : Option Int32 :=
  (calls.filterMap fun c => c.write.at p).getLast?.getD dflt

theorem replay_eq_lastSaid (table : Bytes → Option Int32) (calls : List Commit) (p : Bytes) :
    replay table (calls.map Commit.write) p = lastSaid calls p (table p) := by
  rw [replay_eq_getLast?, lastSaid, List.filterMap_map]
  rfl

/-- What the standby holds for a path in the end, if a snapshot is sent and if none is. -/
def heard (epoch : UInt32) (w : Watcher) (snap : Option (StrMap Int32)) (after : List CallStep)
    (p : Bytes) : Option Int32 :=
  match snap with
  | some snap =>
    if w.observedEpoch ≤ epoch then lastSaid (deltas after) p snap[p]? else w.versionMap[p]?
  | none => w.versionMap[p]?

/-- The snapshot as the standby reads it, if it can be built. -/
def snapshot (epoch : UInt32) (versionMap : StrMap Int32) (repMap : StrMap StrSet) :
    Option (StrMap Int32) :=
  if SnapFits epoch versionMap repMap then some (snapMap versionMap repMap) else none

/-- **When a joining standby has every committed write.**  Once the session is inserted, every
delta can be built.  For every path, the last delta sent after the insertion must say what the
last commit after the collection says; where there is none, the snapshot and the collected map
stand for them.  A standby to which no snapshot can be sent keeps the map that it had. -/
theorem joining_standby_iff
    (hrun : registerStandby epoch repMap before collecting sending after (start versionMap seq)
      = some t) (w : Watcher) :
    (t.terminated = false ∧ (w.deliver t.sent).versionMap = t.persistedVersionMap) ↔
      (SnapFits epoch (collected versionMap before) repMap →
        ∀ c ∈ deltas after, Fits (c.deltaFields epoch)) ∧
      ∀ p : Bytes, heard epoch w (snapshot epoch (collected versionMap before) repMap) after p
        = lastSaid (commits (collecting ++ sending ++ after)) p
          (collected versionMap before)[p]? := by
  obtain ⟨hend, hnot⟩ | ⟨hterm, hsend, hprimary, -⟩ := registerStandby_spec hrun
  · refine iff_of_false (fun h => ?_) fun h => hnot fun hfit => h.1 (of_decide_eq_true hfit)
    rw [hend] at h
    cases h.1
  rw [and_iff_right hterm, and_iff_right fun hfit => hsend (decide_eq_true hfit)]
  have hstandby := standby_versionMap hrun hterm w
  -- two maps are equal when they agree on every path
  have hext : (w.deliver t.sent).versionMap = t.persistedVersionMap
      ↔ ∀ p, look (w.deliver t.sent).versionMap p = look t.persistedVersionMap p :=
    ⟨fun h p => by rw [h], fun h => Std.ExtTreeMap.ext_getElem? fun p => h p⟩
  rw [hext, hstandby, hprimary]
  refine forall_congr' fun p => ?_
  rw [replay_eq_lastSaid, snapshot]
  by_cases hfit : SnapFits epoch (collected versionMap before) repMap
  · rw [if_pos hfit, heard]
    by_cases hepoch : w.observedEpoch ≤ epoch
    · rw [if_pos ⟨hepoch, hfit⟩, if_pos hepoch, replay_eq_lastSaid]
      rfl
    · rw [if_neg fun h => hepoch h.1, if_neg hepoch]
      rfl
  · rw [if_neg fun h => hfit h.2, if_neg hfit]
    rfl

/-- A file that is created after the standby has been inserted reaches it. -/
theorem joining_standby_after_insert :
    let c : Commit := .put [97] 1 [[100]]
    ∃ t, registerStandby 1 ∅ [] [] [] [.commit c, .sendDelta c] (start ∅ 0) = some t ∧
      t.terminated = false ∧
      ((Watcher.start none).deliver t.sent).versionMap = t.persistedVersionMap := by
  intro c
  obtain ⟨t, ht⟩ : ∃ t, registerStandby 1 ∅ [] [] [] [.commit c, .sendDelta c] (start ∅ 0)
      = some t := ⟨_, rfl⟩
  refine ⟨t, ht, (joining_standby_iff ht (Watcher.start none)).mpr
    ⟨fun _ c' hc' => ?_, fun p => rfl⟩⟩
  obtain rfl : c' = c := by simpa [deltas] using hc'
  decide

/-- A file is created after the map has been collected, and its delta is sent
before the standby is inserted: the standby never hears of it. -/
theorem joining_standby_misses_commit :
    let c : Commit := .put [97] 1 [[100]]
    (registerStandby 1 ∅ [] [.commit c, .sendDelta c] [] [] (start ∅ 0)).map (fun t =>
        (t.terminated, t.pending, t.persistedVersionMap[([97] : Bytes)]?,
          ((Watcher.start none).deliver t.sent).versionMap[([97] : Bytes)]?))
      = some (false, [], some 1, none) := by
  decide

end Primary

end Squid
