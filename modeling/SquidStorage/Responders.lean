/-
Machines that answer requests, and when one is as good as another.

`step s i` is the answer to the request `i` in the state `s`, with the state after it.  A machine
refines another one, over a relation of their states, when the answers are the same and the
relation is kept, for all requests that the other machine is meant for (`C`):

* `Refines.answers_eq`, `Refines.related` — for every sequence of such requests;
* `Refines.comp` — refinements compose.
-/
import Mathlib.Logic.Relation

namespace Responders

variable {S T U I O : Type}

/-- The answers to a list of requests. -/
def answers (step : S → I → O × S) : S → List I → List O
  | _, [] => []
  | s, i :: is => (step s i).1 :: answers step (step s i).2 is

/-- The state after a list of requests. -/
def after (step : S → I → O × S) : S → List I → S
  | s, [] => s
  | s, i :: is => after step (step s i).2 is

/-- Every request is one that the machine is meant for, in the state it comes in. -/
def Within (step : S → I → O × S) (C : S → I → Prop) : S → List I → Prop
  | _, [] => True
  | s, i :: is => C s i ∧ Within step C (step s i).2 is

instance (step : S → I → O × S) (C : S → I → Prop) [∀ s i, Decidable (C s i)] :
    (s : S) → (is : List I) → Decidable (Within step C s is)
  | _, [] => isTrue True.intro
  | s, i :: is =>
    have := instDecidableWithin step C (step s i).2 is
    inferInstanceAs (Decidable (C s i ∧ Within step C (step s i).2 is))

/-- `step` answers like `spec` wherever `spec` is meant to be used. -/
structure Refines (step : S → I → O × S) (spec : T → I → O × T) (R : S → T → Prop)
    (C : T → I → Prop) : Prop where
  answer : ∀ s t i, R s t → C t i → (step s i).1 = (spec t i).1
  keeps : ∀ s t i, R s t → C t i → R (step s i).2 (spec t i).2

namespace Refines

variable {step : S → I → O × S} {spec : T → I → O × T} {R : S → T → Prop} {C : T → I → Prop}

theorem answers_eq (h : Refines step spec R C) {s : S} {t : T} {is : List I} (hR : R s t)
    (hC : Within spec C t is) : answers step s is = answers spec t is := by
  induction is generalizing s t with
  | nil => rfl
  | cons i is ih =>
    rw [answers, answers, h.answer s t i hR hC.1, ih (h.keeps s t i hR hC.1) hC.2]

theorem related (h : Refines step spec R C) {s : S} {t : T} {is : List I} (hR : R s t)
    (hC : Within spec C t is) : R (after step s is) (after spec t is) := by
  induction is generalizing s t with
  | nil => exact hR
  | cons i is ih => exact ih (h.keeps s t i hR hC.1) hC.2

theorem mono {C' : T → I → Prop} (h : Refines step spec R C) (hC : ∀ t i, C' t i → C t i) :
    Refines step spec R C' where
  answer s t i hR hC' := h.answer s t i hR (hC t i hC')
  keeps s t i hR hC' := h.keeps s t i hR (hC t i hC')

/-- **Two levels at once**: a request that the upper machine is meant for is one that the machine
in the middle is meant for, in every state that stands for the upper one's. -/
theorem comp {top : U → I → O × U} {R' : T → U → Prop} {C' : U → I → Prop}
    (h : Refines step spec R C) (h' : Refines spec top R' C')
    (hC : ∀ t u i, R' t u → C' u i → C t i) :
    Refines step top (Relation.Comp R R') C' where
  answer s u i := by
    rintro ⟨t, hR, hR'⟩ hC'
    rw [h.answer s t i hR (hC t u i hR' hC'), h'.answer t u i hR' hC']
  keeps s u i := by
    rintro ⟨t, hR, hR'⟩ hC'
    exact ⟨_, h.keeps s t i hR (hC t u i hR' hC'), h'.keeps t u i hR' hC'⟩

end Refines

end Responders
