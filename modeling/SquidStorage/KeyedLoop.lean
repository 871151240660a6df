/-
Loops whose steps each touch one key.

`view k s` is what the state `s` shows of the key `k`, and a step for the item `t`
leaves the view of every key but `key t` alone.  When the items have distinct keys,
the loop can be looked at one key at a time:

* `view_foldl_of_ne` — a key that no item has is left alone;
* `view_foldl_of_mem` — the view of an item's key changes in that item's step only.

`foldlM_except` is about a loop whose steps may fail: if the item alone decides which do, the
loop is the plain one or fails.
-/
import Mathlib.Data.List.Basic

namespace KeyedLoop

variable {K σ τ ν : Type} {key : τ → K} {step : σ → τ → σ} {view : K → σ → ν}

/-- A step changes the view of its own key only. -/
def Local (key : τ → K) (step : σ → τ → σ) (view : K → σ → ν) : Prop :=
  ∀ s t k, k ≠ key t → view k (step s t) = view k s

theorem view_foldl_of_ne (hlocal : Local key step view) {items : List τ} {k : K}
    (h : ∀ t ∈ items, k ≠ key t) (s : σ) : view k (items.foldl step s) = view k s := by
  induction items generalizing s with
  | nil => rfl
  | cons t items ih =>
    rw [List.foldl_cons, ih fun t' ht' => h t' (List.mem_cons_of_mem _ ht')]
    exact hlocal s t k (h t List.mem_cons_self)

/-- The step of an item starts from what the loop started from, as far as the item's
key is concerned, and what it leaves is what the loop leaves. -/
theorem view_foldl_of_mem (hlocal : Local key step view) {items : List τ}
    (hdistinct : items.Pairwise fun t t' => key t ≠ key t') {t : τ} (ht : t ∈ items) (s : σ) :
    ∃ s', view (key t) s' = view (key t) s ∧
      view (key t) (items.foldl step s) = view (key t) (step s' t) := by
  induction items generalizing s with
  | nil => exact absurd ht List.not_mem_nil
  | cons first items ih =>
    obtain ⟨hfirst, hrest⟩ := List.pairwise_cons.mp hdistinct
    rcases List.mem_cons.mp ht with rfl | ht
    · exact ⟨s, rfl, view_foldl_of_ne hlocal hfirst (step s t)⟩
    · obtain ⟨s', hs', hfold⟩ := ih hrest ht (step s first)
      exact ⟨s', hs'.trans (hlocal s first (key t) (hfirst t ht).symm), hfold⟩

/-- A loop in which the item decides whether its step succeeds. -/
theorem foldlM_except {ε : Type} {f : σ → τ → Except ε σ} {g : σ → τ → σ} {ok : τ → Prop}
    (hok : ∀ s t, ok t → f s t = .ok (g s t)) (hfail : ∀ s t, ¬ ok t → ∃ e, f s t = .error e)
    (items : List τ) (s : σ) :
    ((∀ t ∈ items, ok t) ∧ items.foldlM f s = .ok (items.foldl g s)) ∨
      (¬ (∀ t ∈ items, ok t) ∧ ∃ e, items.foldlM f s = .error e) := by
  induction items generalizing s with
  | nil => exact .inl ⟨by simp, rfl⟩
  | cons t items ih =>
    rw [List.foldlM_cons, List.forall_mem_cons]
    by_cases ht : ok t
    · rw [hok s t ht]
      obtain ⟨hall, heq⟩ | ⟨hnot, e, heq⟩ := ih (g s t)
      · exact .inl ⟨⟨ht, hall⟩, heq⟩
      · exact .inr ⟨fun h => hnot h.2, e, heq⟩
    · obtain ⟨e, he⟩ := hfail s t ht
      rw [he]
      exact .inr ⟨fun h => ht h.1, e, rfl⟩

end KeyedLoop
