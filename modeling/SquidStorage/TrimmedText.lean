/-
Trimming blanks and cutting comments off a text.

`trim` takes the blanks at both ends away.  `beforeLast a b` is what stands before the last
place where the character `b` follows an `a`; a comment that such a pair introduces is cut
off there (`cut`).

* `ltrim_append_cons`, `rtrim_append_cons` — a character that is no blank stops the trimming;
* `trim_of_blanks`, `trim_rtrim_word` — blanks around a word without blanks;
* `beforeLast_append` — a text in front that has no `b` does not matter;
* `cut_joined` — cutting off a comment that follows a value, in terms of the comment alone.
-/
import Mathlib.Data.List.DropRight

namespace TrimmedText

variable {α : Type} (blank : α → Bool)

/-! ### Trimming -/

def ltrim (s : List α) : List α := s.dropWhile blank

def rtrim (s : List α) : List α := s.rdropWhile blank

def trim (s : List α) : List α := rtrim blank (ltrim blank s)

variable {blank} {c : α} {s w : List α}

@[simp] theorem rtrim_nil : rtrim blank ([] : List α) = [] := rfl

theorem ltrim_append_cons (hc : blank c = false) (s rest : List α) :
    ltrim blank (s ++ c :: rest) = ltrim blank s ++ c :: rest := by
  induction s with
  | nil => simp [ltrim, hc]
  | cons x s ih =>
    cases hx : blank x with
    | true => simpa [ltrim, hx] using ih
    | false => simp [ltrim, hx]

theorem rtrim_append_cons (hc : blank c = false) (s rest : List α) :
    rtrim blank (s ++ c :: rest) = s ++ c :: rtrim blank rest := by
  induction rest using List.reverseRecOn with
  | nil => simp [rtrim, hc]
  | append_singleton rest x ih =>
    have hlast : s ++ c :: (rest ++ [x]) = (s ++ c :: rest) ++ [x] := by simp
    rw [hlast, rtrim, rtrim, List.rdropWhile_concat, List.rdropWhile_concat]
    cases blank x with
    | true => exact ih
    | false => simp

theorem rtrim_subset (s : List α) : rtrim blank s ⊆ s :=
  List.IsPrefix.subset ( List.rdropWhile_prefix blank s)

theorem rtrim_of_blank (h : ∀ x ∈ s, blank x = true) : rtrim blank s = [] :=
  List.rdropWhile_eq_nil_iff.mpr h

theorem ltrim_of_blank (h : ∀ x ∈ s, blank x = true) (rest : List α) :
    ltrim blank (s ++ rest) = ltrim blank rest := List.dropWhile_append_of_pos h

theorem rtrim_append_word (hne : w ≠ []) (hw : ∀ x ∈ w, blank x = false) (s rest : List α) :
    rtrim blank (s ++ w ++ rest) = s ++ w ++ rtrim blank rest := by
  obtain ⟨init, last, rfl⟩ := (List.eq_nil_or_concat w).resolve_left hne
  rw [List.concat_eq_append] at hw ⊢
  have hsplit : ∀ t, s ++ (init ++ [last]) ++ t = (s ++ init) ++ last :: t := by simp
  rw [hsplit, hsplit, rtrim_append_cons (hw last (by simp))]

/-- A text that ends in a word and blanks. -/
theorem rtrim_append_blank (hw : ∀ x ∈ w, blank x = false) (hs : ∀ x ∈ s, blank x = true) :
    rtrim blank (w ++ s) = w := by
  by_cases hne : w = []
  · rw [hne]
    exact rtrim_of_blank hs
  · have h := rtrim_append_word hne hw [] s
    rwa [rtrim_of_blank hs, List.nil_append, List.append_nil] at h

theorem ltrim_append_word (hs : ∀ x ∈ s, blank x = true) (hne : w ≠ [])
    (hw : ∀ x ∈ w, blank x = false) (rest : List α) :
    ltrim blank (s ++ w ++ rest) = w ++ rest := by
  rw [List.append_assoc, ltrim_of_blank hs]
  cases w with
  | nil => exact absurd rfl hne
  | cons x w => simp [ltrim, hw x List.mem_cons_self]

/-- **A word between blanks.** -/
theorem trim_of_blanks {before after : List α} (hbefore : ∀ x ∈ before, blank x = true)
    (hw : ∀ x ∈ w, blank x = false) (hafter : ∀ x ∈ after, blank x = true) :
    trim blank (before ++ w ++ after) = w := by
  by_cases hne : w = []
  · have hall : ∀ x ∈ before ++ w ++ after, blank x = true := by
      simpa [hne, or_imp, forall_and] using ⟨hbefore, hafter⟩
    rw [trim, ltrim, List.dropWhile_eq_nil_iff.mpr hall, rtrim_nil, hne]
  · rw [trim, ltrim_append_word hbefore hne hw, rtrim_append_blank hw hafter]

/-- A word behind blanks, in a text whose end has been trimmed. -/
theorem trim_rtrim_word (hs : ∀ x ∈ s, blank x = true) (hne : w ≠ [])
    (hw : ∀ x ∈ w, blank x = false) (rest : List α) :
    trim blank (rtrim blank (s ++ w ++ rest)) = w ++ rtrim blank rest := by
  have hidem : rtrim blank (rtrim blank rest) = rtrim blank rest :=
    List.rdropWhile_idempotent blank rest
  have h := rtrim_append_word hne hw [] (rtrim blank rest)
  rw [rtrim_append_word hne hw, trim, ltrim_append_word hs hne hw]
  rwa [List.nil_append, hidem] at h

/-- A text that begins, behind blanks, with a character that is none. -/
theorem trim_append_cons (hs : ∀ x ∈ s, blank x = true) (hc : blank c = false) (rest : List α) :
    trim blank (s ++ c :: rest) = c :: rtrim blank rest := by
  have hnil : ltrim blank s = [] := List.dropWhile_eq_nil_iff.mpr hs
  rw [trim, ltrim_append_cons hc, rtrim_append_cons hc, hnil, List.nil_append]

theorem ltrim_subset (s : List α) : ltrim blank s ⊆ s :=
  (List.dropWhile_sublist blank).subset

theorem trim_ltrim (s : List α) : trim blank (ltrim blank s) = trim blank s := by
  rw [trim, ltrim, ltrim, List.dropWhile_idempotent]
  rfl

/-! ### The last place of a pair of characters -/

variable [DecidableEq α] {a b : α}

/-- What stands before the last `a` that a `b` follows. -/
def beforeLast (a b : α) : List α → Option (List α)
  | [] => none
  | x :: s =>
    match beforeLast a b s with
    | some pre => some (x :: pre)
    | none => if x = a ∧ s.head? = some b then some [] else none

theorem beforeLast_append {u C : List α} (hu : b ∉ u) (hC : C.head? ≠ some b) :
    beforeLast a b (u ++ C) = (beforeLast a b C).map (u ++ ·) := by
  induction u with
  | nil => simp
  | cons x u ih =>
    rw [List.mem_cons, not_or] at hu
    rw [List.cons_append, beforeLast, ih hu.2]
    cases beforeLast a b C with
    | some pre => rfl
    | none =>
      have hhead : (u ++ C).head? ≠ some b := by
        cases u with
        | nil => exact hC
        | cons y u =>
          intro heq
          exact hu.2 (by rw [← Option.some.inj heq]; exact List.mem_cons_self)
      simp only [Option.map_none]
      rw [if_neg fun hpair => hhead hpair.2]

theorem beforeLast_of_not_mem {u : List α} (hu : b ∉ u) : beforeLast a b u = none := by
  have h := beforeLast_append (a := a) (C := []) hu (by simp)
  rwa [List.append_nil] at h

/-- The text goes on with the pair. -/
theorem eq_of_beforeLast {pre : List α} (h : beforeLast a b s = some pre) :
    ∃ post, s = pre ++ a :: b :: post := by
  induction s generalizing pre with
  | nil => simp [beforeLast] at h
  | cons x s ih =>
    rw [beforeLast] at h
    cases hrest : beforeLast a b s with
    | some pre' =>
      rw [hrest] at h
      obtain rfl := Option.some.inj h
      obtain ⟨post, rfl⟩ := ih hrest
      exact ⟨post, rfl⟩
    | none =>
      rw [hrest] at h
      simp only at h
      split at h
      · rename_i hpair
        obtain rfl := Option.some.inj h
        obtain ⟨rfl, hhead⟩ := hpair
        obtain ⟨post, rfl⟩ := List.head?_eq_some_iff.mp hhead
        exact ⟨post, rfl⟩
      · cases h

/-! ### Cutting comments off -/

/-- Cut off what the last pair introduces, and the blanks before it. -/
def cut (blank : α → Bool) (a b : α) (s : List α) : List α :=
  match beforeLast a b s with
  | some pre => rtrim blank pre
  | none => s

theorem cut_subset (s : List α) : cut blank a b s ⊆ s := by
  rw [cut]
  cases h : beforeLast a b s with
  | none => exact List.Subset.refl s
  | some pre =>
    obtain ⟨post, rfl⟩ := eq_of_beforeLast h
    exact List.Subset.trans (rtrim_subset pre) (List.subset_append_left _ _)

theorem cut_of_not_mem (h : b ∉ s) : cut blank a b s = s := by
  rw [cut, beforeLast_of_not_mem h]

/-- A comment without a second `b` is cut off whole. -/
theorem cut_cons_cons {t : List α} (hab : a ≠ b) (ht : b ∉ t) :
    cut blank a b (a :: b :: t) = [] := by
  have hpair : beforeLast a b (a :: b :: t) = some [] := by
    simp [beforeLast, beforeLast_of_not_mem ht, hab.symm]
  rw [cut, hpair]
  rfl

/-- A comment: nothing, or `a` and a character that is no blank, with more after it. -/
def IsComment (blank : α → Bool) (a : α) (C : List α) : Prop :=
  C = [] ∨ ∃ m t, C = a :: m :: t ∧ blank m = false

/-- A value with the blanks after it, and a comment; without a comment the blanks are gone. -/
def joined (blank : α → Bool) (u C : List α) : List α := if C = [] then rtrim blank u else u ++ C

/-- **Cutting a comment off a value** is cutting the comment. -/
theorem cut_joined {u C : List α} (hblank : blank a = true) (hb : blank b = false)
    (hu : b ∉ u) (hC : IsComment blank a C) :
    cut blank a b (joined blank u C) = joined blank u (cut blank a b C) ∧
      IsComment blank a (cut blank a b C) := by
  rcases hC with rfl | ⟨m, t, rfl, hm⟩
  · have hnone : beforeLast a b (rtrim blank u) = none :=
      beforeLast_of_not_mem fun hmem => hu (rtrim_subset u hmem)
    refine ⟨?_, Or.inl rfl⟩
    simp only [cut, joined, if_true, hnone]
    rfl
  · have hab : (a :: m :: t).head? ≠ some b := by
      rintro heq
      rw [Option.some.inj heq, hb] at hblank
      cases hblank
    have hbefore := beforeLast_append (a := a) hu hab
    rw [joined, if_neg (List.cons_ne_nil _ _)]
    cases hcut : beforeLast a b (a :: m :: t) with
    | none =>
      rw [hcut] at hbefore
      simp only [cut, hbefore, hcut, Option.map_none]
      rw [joined, if_neg (List.cons_ne_nil _ _)]
      exact ⟨rfl, Or.inr ⟨m, t, rfl, hm⟩⟩
    | some pre =>
      rw [hcut] at hbefore
      simp only [cut, hbefore, hcut, Option.map_some]
      obtain ⟨post, heq⟩ := eq_of_beforeLast hcut
      -- the pair is at the beginning of the comment, or after its first two characters
      rcases pre with _ | ⟨x, _ | ⟨y, pre⟩⟩
      · rw [List.append_nil, rtrim_nil, joined, if_pos rfl]
        exact ⟨rfl, Or.inl rfl⟩
      · obtain rfl : m = a := (List.cons.inj (List.cons.inj heq).2).1
        rw [hm] at hblank
        cases hblank
      · obtain rfl : a = x := (List.cons.inj heq).1
        obtain rfl : m = y := (List.cons.inj (List.cons.inj heq).2).1
        have hkeep : rtrim blank (a :: m :: pre) = a :: m :: rtrim blank pre :=
          rtrim_append_cons hm [a] pre
        have hsplit : u ++ a :: m :: pre = (u ++ [a]) ++ m :: pre := by simp
        rw [hsplit, rtrim_append_cons hm, hkeep, joined, if_neg (List.cons_ne_nil _ _)]
        exact ⟨by simp, Or.inr ⟨m, _, rfl, hm⟩⟩

end TrimmedText
