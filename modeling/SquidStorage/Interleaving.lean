/-
Two threads over shared locations, and when an interleaving of their steps is
as good as one thread after the other.

A `Program` gives the step of a thread, the locations the step reads and those
it writes; its fields say that a step depends on what it reads only and changes
what it writes only.  Two steps conflict when one writes a location that the
other reads or writes.

* `Program.commute` — steps that do not conflict commute;
* `exec_oneWay` — if no step of one thread is followed by a conflicting step of
  the other, the steps of the other can all be moved to the front;
* `serial_of_oneWay` — then a run of both threads to their ends is the serial
  run.
-/
import Mathlib.Logic.Function.Basic
import Mathlib.Data.List.Count
import Mathlib.Tactic.Common

namespace Interleaving

inductive Turn where
  | first
  | second
deriving DecidableEq, Repr

def Turn.other : Turn → Turn
  | .first => .second
  | .second => .first

@[simp] theorem Turn.other_ne (who : Turn) : who.other ≠ who := by
  cases who <;> decide

@[simp] theorem Turn.ne_other (who : Turn) : who ≠ who.other := by
  cases who <;> decide

theorem Turn.eq_or_eq_other (who turn : Turn) : turn = who ∨ turn = who.other := by
  cases who <;> cases turn <;> decide

/-- A thread with local state `l` does `step l m` in the memory `m`. -/
structure Program (Loc : Type) (Val : Loc → Type) (L : Type) where
  step : L → ((x : Loc) → Val x) → L × ((x : Loc) → Val x)
  reads : L → Loc → Prop
  writes : L → Loc → Prop
  frame : ∀ l m x, ¬ writes l x → (step l m).2 x = m x
  depends : ∀ l m m', (∀ x, reads l x → m x = m' x) →
    (step l m).1 = (step l m').1 ∧ ∀ x, writes l x → (step l m).2 x = (step l m').2 x

variable {Loc : Type} {Val : Loc → Type} {L : Type}

/-- The local states of the two threads, and the memory. -/
structure State (Loc : Type) (Val : Loc → Type) (L : Type) where
  locals : Turn → L
  mem : (x : Loc) → Val x

variable (P : Program Loc Val L)

namespace Program

/-- One step writes what the other reads or writes. -/
def Conflict (l l' : L) : Prop :=
  ∃ x, (P.writes l x ∧ (P.reads l' x ∨ P.writes l' x)) ∨ (P.reads l x ∧ P.writes l' x)

variable {P} in
theorem Conflict.symm {l l' : L} (h : P.Conflict l l') : P.Conflict l' l := by
  obtain ⟨x, ⟨hw, hr | hw'⟩ | ⟨hr, hw⟩⟩ := h
  · exact ⟨x, Or.inr ⟨hr, hw⟩⟩
  · exact ⟨x, Or.inl ⟨hw', Or.inr hw⟩⟩
  · exact ⟨x, Or.inl ⟨hw, Or.inl hr⟩⟩

variable {P} in
/-- A step does not notice a step it does not conflict with. -/
theorem step_after {l l' : L} (h : ¬ P.Conflict l l') (m : (x : Loc) → Val x) :
    (P.step l (P.step l' m).2).1 = (P.step l m).1 ∧
      ∀ x, P.writes l x → (P.step l (P.step l' m).2).2 x = (P.step l m).2 x := by
  refine P.depends l _ _ fun x hr => P.frame l' m x fun hw => h ⟨x, Or.inr ⟨hr, hw⟩⟩

variable {P} in
/-- **Steps that do not conflict commute.** -/
theorem commute {l l' : L} (h : ¬ P.Conflict l l') (m : (x : Loc) → Val x) :
    (P.step l (P.step l' m).2).2 = (P.step l' (P.step l m).2).2 := by
  have h' : ¬ P.Conflict l' l := fun hc => h hc.symm
  funext x
  by_cases hw : P.writes l x
  · have hnot : ¬ P.writes l' x := fun hw' => h ⟨x, Or.inl ⟨hw, Or.inr hw'⟩⟩
    rw [(step_after h m).2 x hw, P.frame l' _ x hnot]
  · rw [P.frame l _ x hw]
    by_cases hw' : P.writes l' x
    · rw [(step_after h' m).2 x hw']
    · rw [P.frame l' m x hw', P.frame l' _ x hw', P.frame l m x hw]

end Program

/-! ### Runs of both threads -/

def advance (who : Turn) (s : State Loc Val L) : State Loc Val L :=
  let moved := P.step (s.locals who) s.mem
  { locals := Function.update s.locals who moved.1, mem := moved.2 }

def exec (sched : List Turn) (s : State Loc Val L) : State Loc Val L :=
  sched.foldl (fun s who => advance P who s) s

@[simp] theorem exec_nil (s : State Loc Val L) : exec P [] s = s := rfl

@[simp] theorem exec_cons (who : Turn) (sched : List Turn) (s : State Loc Val L) :
    exec P (who :: sched) s = exec P sched (advance P who s) := rfl

theorem exec_append (sched sched' : List Turn) (s : State Loc Val L) :
    exec P (sched ++ sched') s = exec P sched' (exec P sched s) :=
  List.foldl_append

theorem locals_advance_of_ne {who turn : Turn} (h : turn ≠ who) (s : State Loc Val L) :
    (advance P who s).locals turn = s.locals turn :=
  Function.update_of_ne h _ _

/-- The step that the local state `l` takes conflicts with none of the steps of
`who` in the run. -/
def Clear (who : Turn) (l : L) : List Turn → State Loc Val L → Prop
  | [], _ => True
  | turn :: sched, s =>
    (turn = who → ¬ P.Conflict (s.locals who) l) ∧ Clear who l sched (advance P turn s)

/-- In the run, no step of the other thread is followed by a step of `who` that
conflicts with it. -/
def OneWay (who : Turn) : List Turn → State Loc Val L → Prop
  | [], _ => True
  | turn :: sched, s =>
    (turn = who.other → Clear P who (s.locals who.other) sched (advance P turn s)) ∧
      OneWay who sched (advance P turn s)

variable {P}

theorem advance_comm {who : Turn} {s : State Loc Val L}
    (h : ¬ P.Conflict (s.locals who) (s.locals who.other)) :
    advance P who (advance P who.other s) = advance P who.other (advance P who s) := by
  have h' : ¬ P.Conflict (s.locals who.other) (s.locals who) := fun hc => h hc.symm
  have hwho := (Program.step_after h s.mem).1
  have hother := (Program.step_after h' s.mem).1
  simp only [advance, Function.update_of_ne (Turn.ne_other who),
    Function.update_of_ne (Turn.other_ne who), hwho, hother, Program.commute h s.mem,
    Function.update_comm (Turn.other_ne who)]

/-- A step of the other thread can be moved behind steps of `who` that do not
conflict with it, and `who` takes the same steps before and after it. -/
theorem exec_replicate_advance {who : Turn} (n : ℕ) (s : State Loc Val L)
    (h : Clear P who (s.locals who.other) (List.replicate n who) (advance P who.other s)) :
    exec P (List.replicate n who) (advance P who.other s)
        = advance P who.other (exec P (List.replicate n who) s) ∧
      ∀ l, Clear P who l (List.replicate n who) (advance P who.other s) →
        Clear P who l (List.replicate n who) s := by
  induction n generalizing s with
  | zero => exact ⟨rfl, fun l h => h⟩
  | succ n ih =>
    have hwho : (advance P who.other s).locals who = s.locals who :=
      locals_advance_of_ne P (Turn.ne_other who) s
    -- the first step of `who` is the same on both sides, and the two commute
    obtain ⟨hnow, hlater⟩ := h
    rw [hwho] at hnow
    have hcomm := advance_comm (hnow rfl)
    rw [hcomm] at hlater
    have hother : (advance P who s).locals who.other = s.locals who.other :=
      locals_advance_of_ne P (Turn.other_ne who) s
    obtain ⟨hexec, hclear⟩ := ih (advance P who s) (by rwa [hother])
    refine ⟨?_, fun l hl => ?_⟩
    · rw [List.replicate_succ, exec_cons, exec_cons, hcomm, hexec]
    · obtain ⟨hfirst, hrest⟩ := hl
      rw [hwho] at hfirst
      rw [hcomm] at hrest
      exact ⟨hfirst, hclear l hrest⟩

/-- **The steps of `who` can be moved to the front** of a one-way run. -/
theorem exec_oneWay {who : Turn} (sched : List Turn) (s : State Loc Val L)
    (h : OneWay P who sched s) :
    ∃ m n, exec P sched s
        = exec P (List.replicate m who ++ List.replicate n who.other) s ∧
      ∀ l, Clear P who l sched s → Clear P who l (List.replicate m who) s := by
  induction sched generalizing s with
  | nil => exact ⟨0, 0, rfl, fun l hl => hl⟩
  | cons turn sched ih =>
    obtain ⟨hclear, hrest⟩ := h
    obtain ⟨m, n, hexec, hkeep⟩ := ih _ hrest
    rcases Turn.eq_or_eq_other who turn with rfl | rfl
    · refine ⟨m + 1, n, ?_, fun l hl => ⟨hl.1, hkeep l hl.2⟩⟩
      rw [List.replicate_succ, List.cons_append, exec_cons, exec_cons, hexec]
    · -- the other thread has moved first: move its step behind those of `who`
      obtain ⟨hmove, hback⟩ := exec_replicate_advance m s (hkeep _ (hclear rfl))
      refine ⟨m, n + 1, ?_, fun l hl => hback l (hkeep l hl.2)⟩
      rw [exec_cons, hexec, exec_append, hmove, exec_append, List.replicate_succ, exec_cons]

/-! ### Threads that come to an end -/

variable (P)

/-- `n` steps of a thread on its own. -/
def alone : ℕ → L × ((x : Loc) → Val x) → L × ((x : Loc) → Val x)
  | 0, c => c
  | n + 1, c => alone n (P.step c.1 c.2)

/-- A thread on its own gets from one state to another. -/
def Reaches (c c' : L × ((x : Loc) → Val x)) : Prop := ∃ n, alone P n c = c'

/-- The thread has come to its end. -/
def Stopped (l : L) : Prop := ∀ m, P.step l m = (l, m)

variable {P}

theorem alone_add (m n : ℕ) (c : L × ((x : Loc) → Val x)) :
    alone P (m + n) c = alone P n (alone P m c) := by
  induction m generalizing c with
  | zero => rw [Nat.zero_add, alone]
  | succ m ih => rw [Nat.succ_add, alone, alone, ih]

theorem Reaches.refl (c : L × ((x : Loc) → Val x)) : Reaches P c c := ⟨0, rfl⟩

theorem Reaches.trans {c c' c'' : L × ((x : Loc) → Val x)} (h : Reaches P c c')
    (h' : Reaches P c' c'') : Reaches P c c'' := by
  obtain ⟨m, rfl⟩ := h
  obtain ⟨n, rfl⟩ := h'
  exact ⟨m + n, alone_add m n c⟩

/-- One step, and then the rest. -/
theorem Reaches.step {c c' : L × ((x : Loc) → Val x)} (h : Reaches P (P.step c.1 c.2) c') :
    Reaches P c c' := by
  obtain ⟨n, rfl⟩ := h
  exact ⟨n + 1, rfl⟩

theorem alone_of_stopped (n : ℕ) {c : L × ((x : Loc) → Val x)} (h : Stopped P c.1) :
    alone P n c = c := by
  induction n with
  | zero => rfl
  | succ n ih => rw [alone, h c.2, ih]

/-- A thread comes to one end. -/
theorem alone_unique {m n : ℕ} {c : L × ((x : Loc) → Val x)} (hm : Stopped P (alone P m c).1)
    (hn : Stopped P (alone P n c).1) : alone P m c = alone P n c := by
  -- the longer run takes only idle steps after the shorter one has stopped
  rcases Nat.le_total m n with hle | hle
  · obtain ⟨d, rfl⟩ := Nat.exists_eq_add_of_le hle
    rw [alone_add, alone_of_stopped d hm]
  · obtain ⟨d, rfl⟩ := Nat.exists_eq_add_of_le hle
    rw [alone_add, alone_of_stopped d hn]

theorem exec_replicate (who : Turn) (n : ℕ) (s : State Loc Val L) :
    exec P (List.replicate n who) s
      = { locals := Function.update s.locals who (alone P n (s.locals who, s.mem)).1
          mem := (alone P n (s.locals who, s.mem)).2 } := by
  induction n generalizing s with
  | zero => simp [alone]
  | succ n ih =>
    rw [List.replicate_succ, exec_cons, ih]
    simp only [advance, Function.update_self, Function.update_idem, alone]

/-- **A one-way run of both threads to their ends is the serial run.** -/
theorem serial_of_oneWay {who : Turn} {sched : List Turn} {s : State Loc Val L}
    (h : OneWay P who sched s) (hstop : ∀ turn, Stopped P ((exec P sched s).locals turn))
    {c₁ c₂ : L × ((x : Loc) → Val x)}
    (h₁ : Reaches P (s.locals who, s.mem) c₁) (hc₁ : Stopped P c₁.1)
    (h₂ : Reaches P (s.locals who.other, c₁.2) c₂) (hc₂ : Stopped P c₂.1) :
    (exec P sched s).locals who = c₁.1 ∧ (exec P sched s).locals who.other = c₂.1 ∧
      (exec P sched s).mem = c₂.2 := by
  obtain ⟨m, n, hexec, -⟩ := exec_oneWay sched s h
  obtain ⟨n₁, h₁⟩ := h₁
  obtain ⟨n₂, h₂⟩ := h₂
  rw [exec_append, exec_replicate who m s, exec_replicate] at hexec
  simp only [Function.update_of_ne (Turn.other_ne who)] at hexec
  have hlwho : (exec P sched s).locals who = (alone P m (s.locals who, s.mem)).1 := by
    rw [hexec]
    dsimp only
    rw [Function.update_of_ne (Turn.ne_other who), Function.update_self]
  -- `who` has come to its end on its own, and then so has the other thread
  have hfirst : alone P m (s.locals who, s.mem) = c₁ := by
    rw [← h₁]
    refine alone_unique (hlwho ▸ hstop who) ?_
    rwa [h₁]
  rw [hfirst] at hexec hlwho
  have hlother : (exec P sched s).locals who.other = (alone P n (s.locals who.other, c₁.2)).1 := by
    rw [hexec]
    exact Function.update_self _ _ _
  have hsecond : alone P n (s.locals who.other, c₁.2) = c₂ := by
    rw [← h₂]
    refine alone_unique (hlother ▸ hstop who.other) ?_
    rwa [h₂]
  rw [hsecond] at hexec hlother
  exact ⟨hlwho, hlother, by rw [hexec]⟩

end Interleaving
