/-
The largest of some values, kept up to date one value at a time.

The values so far are an `Option`; a new value replaces it when it is larger, and a
default is compared with when there is none yet.

* `raiseAll_eq_some_iff`, `raiseAll_eq_none_iff` — what is kept, as a statement about
  the set of the values;
* `raiseAll_congr` — so neither their order nor their number matters.
-/
import Mathlib.Data.List.Basic

namespace RunningMax

variable {α : Type} [LT α] [DecidableLT α]

/-- Take over a value that is larger. -/
def raise (default : α) (best : Option α) (v : α) : Option α :=
  if best.getD default < v then some v else best

/-- Take over values one after the other. -/
def raiseAll (default : α) (best : Option α) (vs : List α) : Option α :=
  vs.foldl (raise default) best

variable [LE α] [Std.IsLinearOrder α] [Std.LawfulOrderLT α]

/-- **What is kept**: the largest of the values if it is above the default or what was
there before, and otherwise what was there. -/
theorem raiseAll_eq_some_iff (default : α) (best : Option α) (vs : List α) (v : α) :
    raiseAll default best vs = some v
      ↔ ((v ∈ vs ∧ best.getD default < v) ∨ best = some v) ∧ ∀ u ∈ vs, u ≤ v := by
  induction vs generalizing best with
  | nil => simp [raiseAll]
  | cons w vs ih =>
    rw [raiseAll, List.foldl_cons]
    refine (ih (raise default best w)).trans ?_
    rw [List.forall_mem_cons, List.mem_cons, raise]
    by_cases hw : best.getD default < w
    · -- the first value is taken over
      rw [if_pos hw, Option.getD_some, Option.some.injEq]
      constructor
      · rintro ⟨⟨hv, hlt⟩ | rfl, hall⟩
        · exact ⟨.inl ⟨.inr hv, Std.lt_trans hw hlt⟩, Std.le_of_lt hlt, hall⟩
        · exact ⟨.inl ⟨.inl rfl, hw⟩, Std.le_refl w, hall⟩
      · rintro ⟨⟨rfl | hv, hlt⟩ | rfl, hle, hall⟩
        · exact ⟨.inr rfl, hall⟩
        · by_cases hlt' : w < v
          · exact ⟨.inl ⟨hv, hlt'⟩, hall⟩
          · exact ⟨.inr (Std.le_antisymm hle (Std.not_lt.mp hlt')), hall⟩
        · exact absurd hle (Std.not_le.mpr hw)
    · rw [if_neg hw]
      constructor
      · rintro ⟨⟨hv, hlt⟩ | rfl, hall⟩
        · exact ⟨.inl ⟨.inr hv, hlt⟩, Std.le_trans (Std.not_lt.mp hw) (Std.le_of_lt hlt), hall⟩
        · exact ⟨.inr rfl, Std.not_lt.mp hw, hall⟩
      · rintro ⟨⟨rfl | hv, hlt⟩ | rfl, hle, hall⟩
        · exact absurd hlt hw
        · exact ⟨.inl ⟨hv, hlt⟩, hall⟩
        · exact ⟨.inr rfl, hall⟩

/-- Nothing is kept when there was nothing and no value is above the default. -/
theorem raiseAll_eq_none_iff (default : α) (best : Option α) (vs : List α) :
    raiseAll default best vs = none ↔ best = none ∧ ∀ u ∈ vs, u ≤ default := by
  induction vs generalizing best with
  | nil => simp [raiseAll]
  | cons w vs ih =>
    rw [raiseAll, List.foldl_cons]
    refine (ih (raise default best w)).trans ?_
    rw [List.forall_mem_cons, raise]
    cases best with
    | some b => by_cases hw : b < w <;> simp [hw]
    | none =>
      by_cases hw : default < w
      · simp [hw, Std.not_le.mpr hw]
      · simp [hw, Std.not_lt.mp hw]

/-- Values that are not larger change nothing. -/
theorem raiseAll_eq_self (default : α) (best : Option α) {vs : List α}
    (h : ∀ u ∈ vs, u ≤ best.getD default) : raiseAll default best vs = best := by
  cases best with
  | none => exact (raiseAll_eq_none_iff default none vs).mpr ⟨rfl, h⟩
  | some b => exact (raiseAll_eq_some_iff default (some b) vs b).mpr ⟨.inr rfl, h⟩

/-- What is kept never gets smaller. -/
theorem exists_le_raiseAll (default b : α) (vs : List α) :
    ∃ v, raiseAll default (some b) vs = some v ∧ b ≤ v := by
  cases hv : raiseAll default (some b) vs with
  | none => simpa using (raiseAll_eq_none_iff default (some b) vs).mp hv
  | some v =>
    obtain ⟨⟨-, hlt⟩ | hsame, -⟩ := (raiseAll_eq_some_iff default (some b) vs v).mp hv
    · exact ⟨v, rfl, Std.le_of_lt hlt⟩
    · exact ⟨v, rfl, Std.le_of_eq (Option.some.inj hsame)⟩

/-- **Only the set of the values matters.** -/
theorem raiseAll_congr (default : α) (best : Option α) {vs ws : List α}
    (h : ∀ v, v ∈ vs ↔ v ∈ ws) : raiseAll default best vs = raiseAll default best ws := by
  refine Option.ext fun v => ?_
  rw [raiseAll_eq_some_iff, raiseAll_eq_some_iff, h v]
  simp only [h]

end RunningMax
