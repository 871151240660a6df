/-
The epochs one standby promotes with, over crashes and restarts.

A standby accepts frames, reconnects, promotes in the three steps of
`ReplicaWatcher::promote` (raise the epoch in memory, persist it, become
active) and may crash between any two of them; a restart reads the epoch back
from `EpochStore`.  Only `promote` writes that file, so a restart forgets the
epochs that were merely accepted from a leader.

* `promotions_grow` — as long as no restart forgets an accepted epoch and the
  counter does not wrap, every promotion is above everything before it; and
  any step outside that condition can be followed by a promotion that is not;
* `promotion_below_leader` — a run that promotes with epoch 1 after accepting 5.
-/
import SquidStorage.ReplicaWatcher
import SquidStorage.Runs

open Runs

namespace Squid

/-- Where `promote()` stands. -/
inductive Stage where
  | standby
  | raised (newEpoch : UInt32)
  | saved (newEpoch : UInt32)
  | active (epoch : UInt32)
deriving DecidableEq, Repr

/-- The epochs of a run, in the order they came up. -/
inductive EpochEvent where
  | accepted (epoch : UInt32)
  | promoted (epoch : UInt32)
deriving DecidableEq, Repr

def EpochEvent.epoch : EpochEvent → UInt32
  | .accepted e => e
  | .promoted e => e

/-- A standby: its disk, its memory, where its promotion stands, and the epochs
it has accepted and promoted with, the latest first. -/
structure StandbyNode where
  epochFile : Option Bytes
  watcher : Watcher
  stage : Stage
  log : List EpochEvent

inductive StandbyEvent where
  /-- `receiveLoop` gets a message -/
  | receive (msg : Message)
  /-- the connection is lost and made again -/
  | reconnect
  /-- `newEpoch = observedEpoch_ + 1; observedEpoch_ = newEpoch` -/
  | raiseEpoch
  /-- `epochStore_.save(newEpoch)` -/
  | saveEpoch
  /-- `role_ = Role::ACTIVE` -/
  | becomeActive
  /-- the process dies, wherever it is, and is started again -/
  | crashRestart

namespace StandbyNode

def start (epochFile : Option Bytes) : StandbyNode :=
  { epochFile := epochFile, watcher := Watcher.start epochFile, stage := .standby, log := [] }

def step (s : StandbyNode) : StandbyEvent → Option StandbyNode
  | .receive msg =>
    if s.stage = .standby then
      some { s with
        watcher := s.watcher.handleFrame msg
        log := if s.watcher.accepts msg then .accepted msg.epoch :: s.log else s.log }
    else none
  | .reconnect => if s.stage = .standby then some s else none
  | .raiseEpoch =>
    if s.stage = .standby then
      let newEpoch := s.watcher.observedEpoch + 1
      some { s with watcher := { s.watcher with observedEpoch := newEpoch }
                    stage := .raised newEpoch }
    else none
  | .saveEpoch =>
    match s.stage with
    | .raised newEpoch =>
      some { s with epochFile := EpochStore.save newEpoch, stage := .saved newEpoch }
    | _ => none
  | .becomeActive =>
    match s.stage with
    | .saved newEpoch =>
      some { s with stage := .active newEpoch, log := .promoted newEpoch :: s.log }
    | _ => none
  | .crashRestart =>
    some { s with watcher := Watcher.start s.epochFile, stage := .standby }

end StandbyNode

/-- A promotion is above an earlier event. -/
def EpochEvent.Above : EpochEvent → EpochEvent → Prop
  | .promoted e, earlier => earlier.epoch < e
  | .accepted _, _ => True

instance : DecidableRel EpochEvent.Above
  | .promoted _, _ => inferInstanceAs (Decidable (_ < _))
  | .accepted _, _ => inferInstanceAs (Decidable True)

/-- Every promotion is strictly above all that was accepted or promoted with
before it. -/
def EpochsGrow (log : List EpochEvent) : Prop := log.Pairwise EpochEvent.Above

instance (log : List EpochEvent) : Decidable (EpochsGrow log) :=
  inferInstanceAs (Decidable (List.Pairwise _ _))

/-- The condition on a step: a crash finds on disk every epoch accepted from a
leader, and the counter does not wrap once there is something to stay above. -/
def KeepsEpoch (s : StandbyNode) : StandbyEvent → Prop
  | .crashRestart => ∀ e, .accepted e ∈ s.log → e ≤ EpochStore.load s.epochFile
  | .raiseEpoch => s.watcher.observedEpoch = 0xFFFFFFFF → s.log = []
  | _ => True

/-! ### The invariant -/

/-- Memory is at least every epoch so far, strictly above it once it has been
raised for a promotion, and the disk has every epoch promoted with. -/
structure StandbyInv (s : StandbyNode) : Prop where
  grow : EpochsGrow s.log
  memory : ∀ ev ∈ s.log, ev.epoch ≤ s.watcher.observedEpoch
  disk : ∀ e, .promoted e ∈ s.log → e ≤ EpochStore.load s.epochFile
  raised : ∀ e, s.stage = .raised e ∨ s.stage = .saved e →
    e = s.watcher.observedEpoch ∧ ∀ ev ∈ s.log, ev.epoch < e
  saved : ∀ e, s.stage = .saved e → EpochStore.load s.epochFile = e

theorem standbyInv_start (epochFile : Option Bytes) :
    StandbyInv (StandbyNode.start epochFile) where
  grow := List.Pairwise.nil
  memory := by simp [StandbyNode.start]
  disk := by simp [StandbyNode.start]
  raised := by simp [StandbyNode.start]
  saved := by simp [StandbyNode.start]

theorem standbyInv_receive {s t : StandbyNode} {msg : Message} (hs : StandbyInv s)
    (h : s.step (.receive msg) = some t) : StandbyInv t := by
  rw [StandbyNode.step] at h
  split at h
  swap
  · simp at h
  rename_i hstage
  obtain rfl := (Option.some.inj h).symm
  have hobs := Watcher.observedEpoch_handleFrame s.watcher msg
  by_cases hacc : s.watcher.accepts msg
  · -- memory goes up to the epoch of the frame
    have hle : s.watcher.observedEpoch ≤ msg.epoch := by
      simp only [Watcher.accepts, Bool.and_eq_true, decide_eq_true_eq] at hacc
      exact hacc.2
    rw [if_pos hacc] at hobs
    refine ⟨?_, ?_, ?_, by simp [hstage], by simp [hstage]⟩
    · simp only [hacc, if_true]
      exact List.Pairwise.cons (fun _ _ => trivial) hs.grow
    · intro ev hev
      simp only [hacc, if_true, List.mem_cons] at hev
      dsimp only
      rw [hobs]
      rcases hev with rfl | hev
      · exact UInt32.le_refl _
      · have := hs.memory ev hev
        grind
    · intro e he
      simp only [hacc, if_true, List.mem_cons, reduceCtorEq, false_or] at he
      exact hs.disk e he
  · rw [if_neg hacc] at hobs
    refine ⟨?_, ?_, ?_, by simp [hstage], by simp [hstage]⟩
    · simpa [hacc] using hs.grow
    · simpa [hacc, hobs] using hs.memory
    · simpa [hacc] using hs.disk

theorem standbyInv_raiseEpoch {s t : StandbyNode} (hs : StandbyInv s)
    (hkeep : KeepsEpoch s .raiseEpoch) (h : s.step .raiseEpoch = some t) : StandbyInv t := by
  rw [StandbyNode.step] at h
  split at h
  swap
  · simp at h
  obtain rfl := (Option.some.inj h).symm
  -- memory bounds the log, and one more is above it unless the counter wraps
  have habove : ∀ ev ∈ s.log, ev.epoch < s.watcher.observedEpoch + 1 := by
    intro ev hev
    have hmem := hs.memory ev hev
    have hwrap : s.watcher.observedEpoch ≠ 0xFFFFFFFF := by
      intro hmax
      rw [hkeep hmax] at hev
      simp at hev
    grind
  refine ⟨hs.grow, fun ev hev => ?_, hs.disk, ?_, by simp⟩
  · exact UInt32.le_of_lt (habove ev hev)
  · rintro e (he | he)
    · obtain rfl := Stage.raised.inj he
      exact ⟨rfl, habove⟩
    · simp at he

theorem standbyInv_saveEpoch {s t : StandbyNode} (hs : StandbyInv s)
    (h : s.step .saveEpoch = some t) : StandbyInv t := by
  rw [StandbyNode.step] at h
  split at h
  swap
  · simp at h
  rename_i newEpoch hstage
  obtain rfl := (Option.some.inj h).symm
  obtain ⟨hobs, habove⟩ := hs.raised newEpoch (Or.inl hstage)
  refine ⟨hs.grow, hs.memory, fun e he => ?_, ?_, fun e he => ?_⟩
  · rw [EpochStore.load_save]
    exact UInt32.le_of_lt (habove _ he)
  · rintro e (he | he)
    · simp at he
    · obtain rfl := Stage.saved.inj he
      exact ⟨hobs, habove⟩
  · obtain rfl := Stage.saved.inj he
    exact EpochStore.load_save _

theorem standbyInv_becomeActive {s t : StandbyNode} (hs : StandbyInv s)
    (h : s.step .becomeActive = some t) : StandbyInv t := by
  rw [StandbyNode.step] at h
  split at h
  swap
  · simp at h
  rename_i newEpoch hstage
  obtain rfl := (Option.some.inj h).symm
  -- the epoch published is the one raised and saved before
  obtain ⟨hobs, habove⟩ := hs.raised newEpoch (Or.inr hstage)
  refine ⟨List.Pairwise.cons habove hs.grow, fun ev hev => ?_, fun e he => ?_, by simp, by simp⟩
  · rcases List.mem_cons.mp hev with rfl | hev
    · exact UInt32.le_of_eq hobs
    · exact hs.memory ev hev
  · rcases List.mem_cons.mp he with heq | he
    · obtain rfl := EpochEvent.promoted.inj heq
      exact UInt32.le_of_eq (hs.saved e hstage).symm
    · exact hs.disk e he

theorem standbyInv_crashRestart {s t : StandbyNode} (hs : StandbyInv s)
    (hkeep : KeepsEpoch s .crashRestart) (h : s.step .crashRestart = some t) :
    StandbyInv t := by
  obtain rfl := (Option.some.inj h).symm
  refine ⟨hs.grow, fun ev hev => ?_, hs.disk, by simp, by simp⟩
  -- memory is what the disk has: the promotions always, the rest by the condition
  cases ev with
  | accepted e => exact hkeep e hev
  | promoted e => exact hs.disk e hev

theorem standbyInv_step {s t : StandbyNode} {ev : StandbyEvent} (hs : StandbyInv s)
    (hkeep : KeepsEpoch s ev) (h : s.step ev = some t) : StandbyInv t := by
  cases ev with
  | receive msg => exact standbyInv_receive hs h
  | reconnect =>
    rw [StandbyNode.step] at h
    split at h
    · obtain rfl := Option.some.inj h
      exact hs
    · simp at h
  | raiseEpoch => exact standbyInv_raiseEpoch hs hkeep h
  | saveEpoch => exact standbyInv_saveEpoch hs h
  | becomeActive => exact standbyInv_becomeActive hs h
  | crashRestart => exact standbyInv_crashRestart hs hkeep h

/-! ### The condition is the right one -/

/-- After a restart that has forgotten an accepted epoch, the next promotion is
not above it. -/
theorem crash_breaks {s t : StandbyNode} (hkeep : ¬ KeepsEpoch s .crashRestart)
    (h : s.step .crashRestart = some t) :
    ∃ es u, run StandbyNode.step t es = some u ∧ ¬ EpochsGrow u.log := by
  obtain ⟨a, ha, hlt⟩ : ∃ a, EpochEvent.accepted a ∈ s.log ∧ EpochStore.load s.epochFile < a := by
    simp only [KeepsEpoch, not_forall] at hkeep
    obtain ⟨a, ha, hle⟩ := hkeep
    exact ⟨a, ha, UInt32.not_le.mp hle⟩
  obtain rfl := (Option.some.inj h).symm
  refine ⟨[.raiseEpoch, .saveEpoch, .becomeActive], _, rfl, fun hgrow => ?_⟩
  have habove : a < EpochStore.load s.epochFile + 1 := (List.pairwise_cons.mp hgrow).1 _ ha
  grind

/-- A promotion that wraps to epoch 0 is above nothing. -/
theorem raise_breaks {s t : StandbyNode} (hkeep : ¬ KeepsEpoch s .raiseEpoch)
    (h : s.step .raiseEpoch = some t) :
    ∃ es u, run StandbyNode.step t es = some u ∧ ¬ EpochsGrow u.log := by
  obtain ⟨hmax, hlog⟩ : s.watcher.observedEpoch = 0xFFFFFFFF ∧ s.log ≠ [] := by
    simpa [KeepsEpoch] using hkeep
  obtain ⟨ev, hev⟩ := List.exists_mem_of_ne_nil _ hlog
  rw [StandbyNode.step] at h
  split at h
  swap
  · simp at h
  obtain rfl := (Option.some.inj h).symm
  refine ⟨[.saveEpoch, .becomeActive], _, rfl, fun hgrow => ?_⟩
  have habove : ev.epoch < s.watcher.observedEpoch + 1 := (List.pairwise_cons.mp hgrow).1 _ hev
  rw [hmax] at habove
  grind

/-- **Promotion epochs grow** in every run whose steps keep the epochs, and the
condition is exact: from every state of such a run, a step that does not meet
it can be followed by a promotion that is not above what came before. -/
theorem promotions_grow (epochFile : Option Bytes) (events : List StandbyEvent)
    (hkeep : Meets StandbyNode.step KeepsEpoch (StandbyNode.start epochFile) events)
    (t : StandbyNode)
    (hrun : run StandbyNode.step (StandbyNode.start epochFile) events = some t) :
    EpochsGrow t.log ∧ ∀ ev u, StandbyNode.step t ev = some u → ¬ KeepsEpoch t ev →
      ∃ es v, run StandbyNode.step u es = some v ∧ ¬ EpochsGrow v.log := by
  have hinv : StandbyInv t :=
    run_invariant (fun _ _ _ hs hk h => standbyInv_step hs hk h) (standbyInv_start epochFile)
      hkeep hrun
  refine ⟨hinv.grow, fun ev u hstep hbad => ?_⟩
  cases ev with
  | raiseEpoch => exact raise_breaks hbad hstep
  | crashRestart => exact crash_breaks hbad hstep
  | receive | reconnect | saveEpoch | becomeActive => exact absurd trivial hbad

/-- A standby that follows a leader of epoch 5, promotes with 6, crashes and is
started again. -/
theorem promotions_grow_five_six :
    ∃ t, run StandbyNode.step (StandbyNode.start none)
        [.receive (leaderHb 5), .raiseEpoch, .saveEpoch, .becomeActive, .crashRestart] = some t ∧
      t.log = [.promoted 6, .accepted 5] ∧ EpochsGrow t.log := by
  have hkeep : Meets StandbyNode.step KeepsEpoch (StandbyNode.start none)
      [.receive (leaderHb 5), .raiseEpoch, .saveEpoch, .becomeActive, .crashRestart] := by
    refine .cons rfl trivial (.cons rfl ?_ (.cons rfl trivial (.cons rfl trivial
      (.cons rfl ?_ trivial))))
    · intro hmax
      exact absurd hmax (by decide)
    · intro e he
      change EpochEvent.accepted e ∈ [EpochEvent.promoted 6, .accepted 5] at he
      obtain rfl : e = 5 := by simpa using he
      decide
  exact ⟨_, rfl, by decide, (promotions_grow none _ hkeep _ rfl).1⟩

/-- A standby accepts epoch 5 from its leader, crashes, and then promotes with
epoch 1. -/
theorem promotion_below_leader :
    ∃ t, run StandbyNode.step (StandbyNode.start none)
        [.receive (leaderHb 5), .crashRestart, .raiseEpoch, .saveEpoch, .becomeActive] = some t ∧
      t.log = [.promoted 1, .accepted 5] ∧ ¬ EpochsGrow t.log := by
  refine ⟨_, rfl, by decide, by decide⟩

end Squid
