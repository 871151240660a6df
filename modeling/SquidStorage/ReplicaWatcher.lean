/-
The standby's watcher: the state it replicates from the primary, and the epoch
it keeps in memory and on disk.

`Watcher.handleFrame` is one pass of `ReplicaWatcher::receiveLoop` over a
received message: frames of an older epoch are ignored, `STATE_SNAP` replaces
the replicated maps, `STATE_DELTA` changes one path, `LEADER_HB` only carries
the epoch.  The epoch on disk (`EpochStore`) is written by `promote()` alone.
-/
import SquidStorage.Formatter

open BigEndian TextStream

namespace Squid

/-! ### The epoch on disk -/

namespace EpochStore

/-- `EpochStore::load` on the text of `.squid/epoch.txt`, if there is one. -/
def load : Option Bytes → UInt32
  | none => 0
  | some text => readUint32 text

/-- The text that `EpochStore::save` renames into place. -/
def save (epoch : UInt32) : Option Bytes := some (decimal epoch.toNat ++ [0x0a])

@[simp] theorem load_save (epoch : UInt32) : load (save epoch) = epoch := by
  refine readUint32_decimal epoch fun b hb => ?_
  obtain rfl : 0x0a = b := by simpa using hb
  decide

end EpochStore

/-! ### The replicated state -/

/-- The guarded state of a `ReplicaWatcher`. -/
structure Watcher where
  versionMap : StrMap Int32 := ∅
  repMap : StrMap StrSet := ∅
  observedEpoch : UInt32

/-- The epoch a message carries, `0` when it carries none. -/
def Message.epoch (msg : Message) : UInt32 := msg.getUint32 .epoch 0

/-- A heartbeat of a leader. -/
def leaderHb (epoch : UInt32) : Message :=
  { opcode := .leaderHb, fields := [fieldUint32 .epoch epoch] }

namespace Watcher

/-- `ReplicaWatcher::ReplicaWatcher`: resume from the epoch on disk. -/
def start (epochFile : Option Bytes) : Watcher := { observedEpoch := EpochStore.load epochFile }

/-- `if (epoch > observedEpoch_) observedEpoch_ = epoch`. -/
def raise (w : Watcher) (epoch : UInt32) : Watcher :=
  if w.observedEpoch < epoch then { w with observedEpoch := epoch } else w

/-- The entries of a snapshot that parse, in the order of the frame. -/
def snapEntries (msg : Message) : List (Bytes × Int32 × StrSet) :=
  msg.fields.filterMap fun f => if f.id = .snapEntry then parseSnapEntry f.value else none

/-- `ReplicaWatcher::applySnap`. -/
def applySnap (w : Watcher) (msg : Message) : Watcher :=
  let entries := snapEntries msg
  let newVersionMap : StrMap Int32 := entries.foldl (fun m e => m.insert e.1 e.2.1) ∅
  let newRepMap : StrMap StrSet := entries.foldl (fun m e => m.insert e.1 e.2.2) ∅
  ({ w with versionMap := newVersionMap, repMap := newRepMap } : Watcher).raise msg.epoch

/-- The operation of a delta: the first non-empty `DELTA_OP` field, else `0`. -/
def deltaOp (msg : Message) : UInt8 :=
  match msg.fields.find? fun f => f.id = .deltaOp ∧ f.value ≠ [] with
  | none => 0
  | some f => f.value.headD 0

/-- `ReplicaWatcher::applyDelta`. -/
def applyDelta (w : Watcher) (msg : Message) : Watcher :=
  let filePath := msg.getString .filePath []
  let version := toInt32 (msg.getUint32 .fileVersion 0)
  let datanodes := (msg.fields.filter fun f => f.id = .datanodeName).map BinaryField.value
  let w := w.raise msg.epoch
  if deltaOp msg = 1 then
    { w with versionMap := w.versionMap.erase filePath, repMap := w.repMap.erase filePath }
  else
    { w with versionMap := w.versionMap.insert filePath version
             repMap := w.repMap.insert filePath (Std.ExtTreeSet.ofList datanodes) }

/-- What `receiveLoop` does with a message.  `CLOSE` ends the loop and any other
opcode is logged: neither changes the state. -/
def handleFrame (w : Watcher) (msg : Message) : Watcher :=
  if msg.epoch < w.observedEpoch then w
  else match msg.opcode with
    | .stateSnap => w.applySnap msg
    | .stateDelta => w.applyDelta msg
    | .leaderHb => w.raise msg.epoch
    | _ => w

/-- The frames a leader sends to a standby. -/
def fromLeader (msg : Message) : Bool :=
  msg.opcode = .stateSnap || msg.opcode = .stateDelta || msg.opcode = .leaderHb

/-- A frame of a leader that the epoch fence lets through. -/
def accepts (w : Watcher) (msg : Message) : Bool :=
  fromLeader msg && w.observedEpoch ≤ msg.epoch

theorem observedEpoch_raise (w : Watcher) {epoch : UInt32} (h : w.observedEpoch ≤ epoch) :
    (w.raise epoch).observedEpoch = epoch := by
  rw [raise]
  split
  · rfl
  · grind

theorem observedEpoch_applySnap {w : Watcher} {msg : Message} (h : w.observedEpoch ≤ msg.epoch) :
    (w.applySnap msg).observedEpoch = msg.epoch :=
  observedEpoch_raise _ h

theorem observedEpoch_applyDelta {w : Watcher} {msg : Message}
    (h : w.observedEpoch ≤ msg.epoch) : (w.applyDelta msg).observedEpoch = msg.epoch := by
  rw [applyDelta]
  split <;> exact observedEpoch_raise w h

/-- **The epoch in memory is the epoch of the last accepted frame.** -/
theorem observedEpoch_handleFrame (w : Watcher) (msg : Message) :
    (w.handleFrame msg).observedEpoch
      = if w.accepts msg then msg.epoch else w.observedEpoch := by
  by_cases hstale : msg.epoch < w.observedEpoch
  · have hle : ¬ w.observedEpoch ≤ msg.epoch := by grind
    simp [handleFrame, accepts, hstale, hle]
  · have hle : w.observedEpoch ≤ msg.epoch := by grind
    rw [handleFrame, if_neg hstale]
    split
    · rename_i hop
      have hleader : fromLeader msg = true := by rw [fromLeader, hop]; rfl
      simp [accepts, hleader, hle, observedEpoch_applySnap]
    · rename_i hop
      have hleader : fromLeader msg = true := by rw [fromLeader, hop]; rfl
      simp [accepts, hleader, hle, observedEpoch_applyDelta]
    · rename_i hop
      have hleader : fromLeader msg = true := by rw [fromLeader, hop]; rfl
      simp [accepts, hleader, hle, observedEpoch_raise]
    · rename_i hsnap hdelta hhb
      have hother : fromLeader msg = false := by
        simp only [fromLeader, Bool.or_eq_false_iff, decide_eq_false_iff_not]
        exact ⟨⟨hsnap, hdelta⟩, hhb⟩
      simp [accepts, hother]

end Watcher

end Squid
