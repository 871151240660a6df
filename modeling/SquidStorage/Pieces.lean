/-
A FIFO stream that is handed out in pieces.

A reader that asks for `n` elements gets the start of the next piece, at most
`n` and at least one of them (`pull`).  Where the stream is cut is arbitrary, so
a statement about all lists of pieces is one about every way of splitting reads.

* `pull_flatten` — no element is lost or reordered;
* `pull_eq_nil_iff` — a reader gets nothing only at the end of the stream.
-/
import Mathlib.Data.Nat.Notation

namespace Pieces

variable {α : Type}

/-- One read of at most `n` elements: what it returns, and what is left. -/
def pull (n : ℕ) : List (List α) → List α × List (List α)
  | [] => ([], [])
  | [] :: ps => pull n ps
  | (a :: p) :: ps => ((a :: p).take n, (a :: p).drop n :: ps)

theorem pull_flatten (n : ℕ) (ps : List (List α)) :
    (pull n ps).1 ++ (pull n ps).2.flatten = ps.flatten := by
  fun_induction pull n ps with
  | case1 => rfl
  | case2 ps ih => rw [ih, List.flatten_cons, List.nil_append]
  | case3 a p ps =>
    rw [List.flatten_cons, List.flatten_cons, ← List.append_assoc, List.take_append_drop]

theorem length_pull_le (n : ℕ) (ps : List (List α)) : (pull n ps).1.length ≤ n := by
  fun_induction pull n ps with
  | case1 => exact Nat.zero_le n
  | case2 ps ih => exact ih
  | case3 a p ps => exact List.length_take_le n _

theorem pull_eq_nil_iff {n : ℕ} (hn : 0 < n) (ps : List (List α)) :
    (pull n ps).1 = [] ↔ ps.flatten = [] := by
  fun_induction pull n ps with
  | case1 => exact ⟨fun _ => rfl, fun _ => rfl⟩
  | case2 ps ih => rw [ih, List.flatten_cons, List.nil_append]
  | case3 a p ps =>
    obtain ⟨k, rfl⟩ : ∃ k, n = k + 1 := ⟨n - 1, by omega⟩
    simp

end Pieces
