/-
Names of files in a tree of directories, as strings with a separator.

A path is a list of characters; its components are what stands between the separators
(`List.splitOn`).  The directory `[]` is the root.

* `allComponents_append_iff` — a path put together at a separator has the components of
  both parts;
* `under`, `join` — what every path below a directory starts with, and the path of a
  name in a directory;
* `exists_join` — every path without an empty component is a name in a directory.
-/
import Mathlib.Data.List.Basic

namespace PathNames

variable {α : Type} {sep : α} {P : List α → Prop} {a b n p : List α}

/-! ### Directories -/

/-- What the paths below a directory start with. -/
def under (sep : α) (dir : List α) : List α := if dir = [] then [] else dir ++ [sep]

/-- The path of a name in a directory. -/
def join (sep : α) (dir name : List α) : List α := under sep dir ++ name

@[simp] theorem under_root : under sep [] = [] := if_pos rfl

theorem under_of_ne_nil {dir : List α} (h : dir ≠ []) : under sep dir = dir ++ [sep] := if_neg h

@[simp] theorem join_root (name : List α) : join sep [] name = name := by
  rw [join, under_root, List.nil_append]

theorem join_of_ne_nil {dir : List α} (h : dir ≠ []) (name : List α) :
    join sep dir name = dir ++ sep :: name := by
  rw [join, under_of_ne_nil h, List.append_assoc, List.singleton_append]

theorem join_ne_nil {dir name : List α} (h : name ≠ []) : join sep dir name ≠ [] :=
  List.append_ne_nil_of_right_ne_nil _ h

/-! ### Components -/

variable [DecidableEq α]

/-- Every component of the path has the property. -/
def AllComponents (sep : α) (P : List α → Prop) (p : List α) : Prop := ∀ c ∈ p.splitOn sep, P c

instance [DecidablePred P] : Decidable (AllComponents sep P p) :=
  inferInstanceAs (Decidable (∀ c ∈ p.splitOn sep, P c))

theorem splitOn_append_sep (sep : α) (a b : List α) :
    (a ++ sep :: b).splitOn sep = a.splitOn sep ++ b.splitOn sep :=
  List.splitOnP_append_cons a b (beq_self_eq_true sep)

theorem splitOn_of_not_mem (h : sep ∉ n) : n.splitOn sep = [n] := by
  refine List.splitOnP_eq_singleton fun x hx => ?_
  rw [beq_eq_false_iff_ne]
  rintro rfl
  exact h hx

theorem allComponents_append_iff :
    AllComponents sep P (a ++ sep :: b) ↔ AllComponents sep P a ∧ AllComponents sep P b := by
  rw [AllComponents, splitOn_append_sep, List.forall_mem_append]
  rfl

theorem allComponents_of_not_mem (h : sep ∉ n) : AllComponents sep P n ↔ P n := by
  rw [AllComponents, splitOn_of_not_mem h, List.forall_mem_singleton]

theorem AllComponents.imp {Q : List α → Prop} (h : AllComponents sep P p)
    (hPQ : ∀ c, P c → Q c) : AllComponents sep Q p := fun c hc => hPQ c (h c hc)

/-- A relative path without an empty component, so without a separator at either end. -/
def Normalised (sep : α) (p : List α) : Prop := AllComponents sep (· ≠ []) p

instance : Decidable (Normalised sep p) :=
  inferInstanceAs (Decidable (AllComponents sep (fun c => c ≠ []) p))

/-- One component of such a path. -/
def IsComponent (sep : α) (n : List α) : Prop := n ≠ [] ∧ sep ∉ n

instance : Decidable (IsComponent sep n) := inferInstanceAs (Decidable (_ ∧ _))

theorem Normalised.ne_nil (h : Normalised sep p) : p ≠ [] := by
  rintro rfl
  exact h [] (by simp [List.splitOn]) rfl

theorem normalised_append_iff :
    Normalised sep (a ++ sep :: b) ↔ Normalised sep a ∧ Normalised sep b :=
  allComponents_append_iff

/-! ### Names in directories -/

/-- A path is a name in a directory: the last separator decides. -/
theorem exists_join (h : Normalised sep p) : ∃ dir name, (dir = [] ∨ Normalised sep dir) ∧
    IsComponent sep name ∧ p = join sep dir name := by
  by_cases hsep : sep ∈ p
  · obtain ⟨name, dir, hsplit, hname⟩ := List.eq_append_cons_of_mem (List.mem_reverse.mpr hsep)
    have hp : p = dir.reverse ++ sep :: name.reverse := by
      rw [← List.reverse_reverse p, hsplit, List.reverse_append, List.reverse_cons,
        List.append_assoc, List.singleton_append]
    rw [hp, normalised_append_iff] at h
    refine ⟨dir.reverse, name.reverse, Or.inr h.1, ⟨h.2.ne_nil, ?_⟩, ?_⟩
    · rwa [List.mem_reverse]
    · rw [hp, join_of_ne_nil h.1.ne_nil]
  · exact ⟨[], p, Or.inl rfl, ⟨h.ne_nil, hsep⟩, (join_root p).symm⟩

end PathNames
