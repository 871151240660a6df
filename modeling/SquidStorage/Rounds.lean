/-
Two parties that talk over a pair of FIFO streams.

Each party is given by its history function: what it has sent once it has
received a given prefix of the other's stream.  `rounds f g n` lets them take
turns, each one seeing everything the other has sent so far; a round that adds
nothing is the end of the conversation (`rounds_stable`).
-/
import Mathlib.Data.Nat.Notation

namespace Rounds

variable {α : Type} (f g : List α → List α)

/-- What the first and the second party have sent after `n` rounds. -/
def rounds : ℕ → List α × List α
  | 0 => (f [], [])
  | n + 1 => (f (g (rounds n).1), g (rounds n).1)

theorem rounds_succ (n : ℕ) :
    rounds f g (n + 1) = (f (g (rounds f g n).1), g (rounds f g n).1) := rfl

/-- A party that adds nothing to the answer it gets has nothing more to say. -/
theorem rounds_fst {k : ℕ} {x : List α} (hk : (rounds f g k).1 = x) (hx : f (g x) = x) {n : ℕ}
    (hn : k ≤ n) : (rounds f g n).1 = x := by
  obtain ⟨m, rfl⟩ := Nat.exists_eq_add_of_le hn
  induction m with
  | zero => exact hk
  | succ m ih =>
    show f (g (rounds f g (k + m)).1) = x
    rw [ih (Nat.le_add_right k m), hx]

/-- Once the first party has said all it has to say, the conversation is over
as soon as the second one has answered it. -/
theorem rounds_stable {k : ℕ} {x : List α} (hx : ∀ n ≥ k, (rounds f g n).1 = x) {n : ℕ}
    (hn : k + 1 ≤ n) : rounds f g n = (x, g x) := by
  obtain ⟨m, rfl⟩ : ∃ m, n = m + 1 := ⟨n - 1, by omega⟩
  have hm : (rounds f g m).1 = x := hx m (by omega)
  have hm' : (rounds f g (m + 1)).1 = x := hx (m + 1) (by omega)
  rw [rounds_succ, hm] at hm' ⊢
  exact congrArg (·, g x) hm'

end Rounds
