/-
What a promoted standby knows of the files.

`replica_watcher.hpp` offers the replicated maps "so that when this node
promotes, the new Server can bootstrap from it".  The promotion callback of
`main.cpp` starts a `Server` with the new epoch only, and its
`ReplicationManager` loads the version map from the standby's own disk.

* `watch_versionMap` — the replicated map is the accepted frames, replayed;
* `failover_versions_iff` — the new server knows at least the replicated
  versions exactly when the standby's disk already had them;
* `failover_forgets` — a snapshot that is lost at promotion.
-/
import SquidStorage.ReplicaWatcher
import SquidStorage.Replication
import SquidStorage.Handshake

open BigEndian LastWrite

namespace Squid

/-- The watcher after a history of messages received before it promotes. -/
def watch (epochFile : Option Bytes) (frames : List Message) : Watcher :=
  frames.foldl Watcher.handleFrame (Watcher.start epochFile)

/-- The promotion callback of `main.cpp`: a `Server` of the new epoch, whose
`ReplicationManager` starts from the version file on disk. -/
def onPromote (replicationFactor : ℕ) (versionFile : Option Bytes) (newEpoch : UInt32) :
    Server × ReplicationManager :=
  ({ epoch := newEpoch }, ReplicationManager.start replicationFactor versionFile)

/-- `ReplicaWatcher::promote` with that callback. -/
def Watcher.promote (w : Watcher) (replicationFactor : ℕ) (versionFile : Option Bytes) :
    Server × ReplicationManager :=
  onPromote replicationFactor versionFile (w.observedEpoch + 1)

/-! ### The replicated map as a history -/

/-- The frames of a history that pass the epoch fence, starting from `epoch`. -/
def acceptedFrames : UInt32 → List Message → List Message
  | _, [] => []
  | epoch, msg :: msgs =>
    if Watcher.fromLeader msg && epoch ≤ msg.epoch then msg :: acceptedFrames msg.epoch msgs
    else acceptedFrames epoch msgs

/-- What a frame writes to the version map. -/
def frameWrite (msg : Message) : Write Bytes Int32 :=
  match msg.opcode with
  | .stateSnap => .all (look ((Watcher.snapEntries msg).foldl (fun m e => m.insert e.1 e.2.1) ∅))
  | .stateDelta =>
    if Watcher.deltaOp msg = 1 then .del (msg.getString .filePath [])
    else .put (msg.getString .filePath []) (toInt32 (msg.getUint32 .fileVersion 0))
  | _ => .skip

theorem versionMap_raise (w : Watcher) (epoch : UInt32) :
    (w.raise epoch).versionMap = w.versionMap := by
  rw [Watcher.raise]
  split <;> rfl

theorem look_applySnap {w : Watcher} {msg : Message} (h : msg.opcode = .stateSnap) :
    look (w.applySnap msg).versionMap = (frameWrite msg).apply (look w.versionMap) := by
  simp only [Watcher.applySnap, versionMap_raise, frameWrite, h]
  rfl

theorem look_applyDelta {w : Watcher} {msg : Message} (h : msg.opcode = .stateDelta) :
    look (w.applyDelta msg).versionMap = (frameWrite msg).apply (look w.versionMap) := by
  simp only [Watcher.applyDelta, frameWrite, h]
  split
  · rw [look_erase, versionMap_raise]
    rfl
  · rw [look_insert, versionMap_raise]
    rfl

/-- An accepted frame writes, any other message changes nothing. -/
theorem look_handleFrame (w : Watcher) (msg : Message) :
    look (w.handleFrame msg).versionMap
      = if w.accepts msg then (frameWrite msg).apply (look w.versionMap)
        else look w.versionMap := by
  by_cases hstale : msg.epoch < w.observedEpoch
  · have hle : ¬ w.observedEpoch ≤ msg.epoch := by grind
    simp [Watcher.handleFrame, Watcher.accepts, hstale, hle]
  · -- past the fence the opcode decides
    have hle : w.observedEpoch ≤ msg.epoch := by grind
    have haccepts : w.accepts msg = Watcher.fromLeader msg := by simp [Watcher.accepts, hle]
    rw [Watcher.handleFrame, if_neg hstale, haccepts, Watcher.fromLeader]
    split
    · rename_i hop
      rw [look_applySnap hop, hop]
      rfl
    · rename_i hop
      rw [look_applyDelta hop, hop]
      rfl
    · rename_i hop
      rw [versionMap_raise, frameWrite, hop]
      rfl
    · rename_i hsnap hdelta hhb
      have hother : Watcher.fromLeader msg = false := by
        simp only [Watcher.fromLeader, Bool.or_eq_false_iff, decide_eq_false_iff_not]
        exact ⟨⟨hsnap, hdelta⟩, hhb⟩
      rw [Watcher.fromLeader] at hother
      rw [hother, if_neg (by simp)]

/-- **The replicated map is the accepted frames, replayed.** -/
theorem look_foldl_handleFrame (w : Watcher) (frames : List Message) :
    look (frames.foldl Watcher.handleFrame w).versionMap
      = replay (look w.versionMap) ((acceptedFrames w.observedEpoch frames).map frameWrite) := by
  -- the epoch in memory after a frame is the fence for the next one
  induction frames generalizing w with
  | nil => rfl
  | cons msg frames ih =>
    rw [List.foldl_cons, ih, look_handleFrame, Watcher.observedEpoch_handleFrame, acceptedFrames]
    by_cases hacc : w.accepts msg
    · rw [if_pos hacc, if_pos hacc]
      rw [Watcher.accepts] at hacc
      rw [if_pos hacc]
      rfl
    · rw [if_neg hacc, if_neg hacc]
      rw [Watcher.accepts] at hacc
      rw [if_neg hacc]

/-- The last accepted frame that speaks of `path` sets it to `version`. -/
def Replicated (epochFile : Option Bytes) (frames : List Message) (path : Bytes)
    (version : Int32) : Prop :=
  ∃ pre msg post, acceptedFrames (EpochStore.load epochFile) frames = pre ++ msg :: post ∧
    (frameWrite msg).at path = some (some version) ∧
    ∀ later ∈ post, (frameWrite later).at path = none

theorem watch_versionMap (epochFile : Option Bytes) (frames : List Message) (path : Bytes)
    (version : Int32) :
    (watch epochFile frames).versionMap[path]? = some version
      ↔ Replicated epochFile frames path version := by
  have hlook := look_foldl_handleFrame (Watcher.start epochFile) frames
  have hstart : look (Watcher.start epochFile).versionMap = fun _ => none := look_empty
  rw [hstart] at hlook
  have hpath := congrFun hlook path
  show look (watch epochFile frames).versionMap path = some version ↔ _
  rw [watch, hpath, replay_map_eq_some_iff]
  rfl

/-! ### Failover -/

theorem getKnownVersion_start (replicationFactor : ℕ) (versionFile : Option Bytes)
    (path : Bytes) (version : Int32) :
    version ≤ (ReplicationManager.start replicationFactor versionFile).getKnownVersion path
      ↔ (∃ u, Stored versionFile path u ∧ version ≤ u) ∨
        (version ≤ -1 ∧ ∀ u, ¬ Stored versionFile path u) := by
  have hload := loadVersionMap_eq_some_iff versionFile path
  rw [ReplicationManager.getKnownVersion, ReplicationManager.start]
  cases hlookup : (StateManager.loadVersionMap versionFile)[path]? with
  | none =>
    have hnone : ∀ u, ¬ Stored versionFile path u := by
      intro u hu
      rw [(hload u).mpr hu] at hlookup
      simp at hlookup
    rw [Option.getD_none]
    exact ⟨fun h => Or.inr ⟨h, hnone⟩,
      fun h => h.elim (fun ⟨u, hu, _⟩ => absurd hu (hnone u)) And.left⟩
  | some u =>
    have hu : Stored versionFile path u := (hload u).mp hlookup
    rw [Option.getD_some]
    constructor
    · exact fun h => Or.inl ⟨u, hu, h⟩
    · rintro (⟨u', hu', hle⟩ | ⟨-, hnone⟩)
      · have heq := (hload u').mpr hu'
        rw [hlookup] at heq
        obtain rfl := Option.some.inj heq
        exact hle
      · exact absurd hu (hnone u)

/-- **When failover keeps the replicated versions.**  For every history of
messages, the server started by the promotion knows of every path at least the
version the standby had replicated exactly when the standby's version file
already gives that path such a version (or the replicated version is below `0`
and the file does not name the path). -/
theorem failover_versions_iff (replicationFactor : ℕ) (epochFile versionFile : Option Bytes)
    (frames : List Message) :
    (∀ path version, (watch epochFile frames).versionMap[path]? = some version →
      version ≤ ((watch epochFile frames).promote replicationFactor
        versionFile).2.getKnownVersion path)
      ↔ ∀ path version, Replicated epochFile frames path version →
        (∃ u, Stored versionFile path u ∧ version ≤ u) ∨
        (version ≤ -1 ∧ ∀ u, ¬ Stored versionFile path u) := by
  refine forall_congr' fun path => forall_congr' fun version => ?_
  rw [watch_versionMap, Watcher.promote, onPromote, getKnownVersion_start]

/-- A standby that has been given version 3 of the file `a` promotes on an empty
disk: the new server does not know the file. -/
theorem failover_forgets :
    let snap : Message := { opcode := .stateSnap
                            fields := [⟨.epoch, pushU32 1⟩, ⟨.snapEntry, [97, 32, 51]⟩] }
    (watch none [snap]).versionMap[([97] : Bytes)]? = some 3 ∧
      ((watch none [snap]).promote 2 none).2.getKnownVersion [97] = -1 := by
  decide

end Squid
