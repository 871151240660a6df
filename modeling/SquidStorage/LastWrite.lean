/-
Tables built by a sequence of writes: the last write that speaks of a key
decides what the table holds there.

A table is a function `K → Option V`.  A `Write` sets one key, erases one key,
replaces the whole table, or does nothing; `Write.at k` is what it says of the
key `k`.

* `replay_map_eq_some_iff` — what the table holds, as a statement about its history:
  the value comes from a write after which the key is not written any more;
* `replay_eq_getLast?` — the same as an equation;
* `look_insert`, `look_erase`, `look_foldl_insert` — ordered maps as tables.
-/
import Std.Data.ExtTreeMap.Lemmas
import Mathlib.Data.Nat.Notation

namespace LastWrite

variable {K V : Type} [DecidableEq K]

inductive Write (K V : Type) where
  | put (k : K) (v : V)
  | del (k : K)
  | all (table : K → Option V)
  | skip

/-- What a write says of a key; `none` when it leaves the key alone. -/
def Write.at (k : K) : Write K V → Option (Option V)
  | .put k' v => if k' = k then some (some v) else none
  | .del k' => if k' = k then some none else none
  | .all table => some (table k)
  | .skip => none

def Write.apply (table : K → Option V) (w : Write K V) : K → Option V :=
  fun k => (w.at k).getD (table k)

/-- The table after a sequence of writes. -/
def replay (table : K → Option V) (ws : List (Write K V)) : K → Option V :=
  ws.foldl Write.apply table

theorem replay_append (table : K → Option V) (ws ws' : List (Write K V)) :
    replay table (ws ++ ws') = replay (replay table ws) ws' :=
  List.foldl_append

/-- Writes that leave a key alone do not change it. -/
theorem replay_of_forall_none (table : K → Option V) {ws : List (Write K V)} {k : K}
    (h : ∀ w ∈ ws, w.at k = none) : replay table ws k = table k := by
  induction ws generalizing table with
  | nil => rfl
  | cons w ws ih =>
    have hw : w.at k = none := h w List.mem_cons_self
    rw [replay, List.foldl_cons]
    exact (ih (w.apply table) fun w' hw' => h w' (List.mem_cons_of_mem _ hw')).trans
      (by rw [Write.apply, hw, Option.getD_none])

/-- The last write that speaks of a key decides. -/
theorem replay_of_last (table : K → Option V) {pre post : List (Write K V)} {w : Write K V}
    {k : K} {o : Option V} (hw : w.at k = some o) (hpost : ∀ w' ∈ post, w'.at k = none) :
    replay table (pre ++ w :: post) k = o := by
  rw [replay_append, replay, List.foldl_cons]
  exact (replay_of_forall_none _ hpost).trans (by rw [Write.apply, hw, Option.getD_some])

/-- What the last write that speaks of a key says. -/
theorem replay_eq_getLast? (table : K → Option V) (ws : List (Write K V)) (k : K) :
    replay table ws k = (ws.filterMap (Write.at k)).getLast?.getD (table k) := by
  induction ws generalizing table with
  | nil => rfl
  | cons w ws ih =>
    have hcons : replay table (w :: ws) k = replay (w.apply table) ws k := rfl
    rw [hcons, ih, List.filterMap_cons]
    cases hw : w.at k with
    | none => rw [Write.apply, hw, Option.getD_none]
    | some o => rw [Write.apply, hw, List.getLast?_cons, Option.getD_some, Option.getD_some]

/-- A table is changed key by key. -/
theorem replay_congr {table table' : K → Option V} {k : K} (h : table k = table' k)
    (ws : List (Write K V)) : replay table ws k = replay table' ws k := by
  rw [replay_eq_getLast?, replay_eq_getLast?, h]

section History

variable {α : Type} (write : α → Write K V)

/-- Either no item of a history speaks of a key, or there is a last one that does. -/
theorem exists_last (l : List α) (k : K) :
    (∀ a ∈ l, (write a).at k = none) ∨ ∃ pre a post o, l = pre ++ a :: post ∧
      (write a).at k = some o ∧ ∀ b ∈ post, (write b).at k = none := by
  induction l with
  | nil => exact Or.inl (by simp)
  | cons a l ih =>
    rcases ih with hnone | ⟨pre, b, post, o, rfl, hb, hpost⟩
    · -- no later item speaks of the key: it is up to this one
      cases ha : (write a).at k with
      | none => exact Or.inl (by simpa [ha] using hnone)
      | some o => exact Or.inr ⟨[], a, l, o, rfl, ha, hnone⟩
    · exact Or.inr ⟨a :: pre, b, post, o, rfl, hb, hpost⟩

/-- **What a replayed table holds**, in terms of its history. -/
theorem replay_map_eq_some_iff (l : List α) (k : K) (v : V) :
    replay (fun _ => none) (l.map write) k = some v ↔ ∃ pre a post, l = pre ++ a :: post ∧
      (write a).at k = some (some v) ∧ ∀ b ∈ post, (write b).at k = none := by
  have hlast : ∀ {pre a post o}, (write a).at k = some o → (∀ b ∈ post, (write b).at k = none) →
      replay (fun _ => none) ((pre ++ a :: post).map write) k = o := by
    intro pre a post o ha hpost
    rw [List.map_append, List.map_cons]
    exact replay_of_last _ ha (by simpa using hpost)
  constructor
  · intro h
    rcases exists_last write l k with hnone | ⟨pre, a, post, o, rfl, ha, hpost⟩
    · rw [replay_of_forall_none _ (by simpa using hnone)] at h
      simp at h
    · rw [hlast ha hpost] at h
      exact ⟨pre, a, post, rfl, by rw [ha, h], hpost⟩
  · rintro ⟨pre, a, post, rfl, ha, hpost⟩
    exact hlast ha hpost

end History

/-! ### Ordered maps -/

section OrderedMap

variable [Ord K] [Std.TransOrd K] [Std.LawfulEqOrd K]

/-- The table of an ordered map. -/
def look (m : Std.ExtTreeMap K V) : K → Option V := fun k => m[k]?

omit [DecidableEq K] [Std.LawfulEqOrd K] in
theorem mem_iff_exists_entry {m : Std.ExtTreeMap K V} {k : K} :
    k ∈ m ↔ ∃ v, m[k]? = some v := by
  rw [Std.ExtTreeMap.mem_iff_isSome_getElem?, Option.isSome_iff_exists]

omit [DecidableEq K] [Std.LawfulEqOrd K] in
theorem mem_of_entry {m : Std.ExtTreeMap K V} {k : K} {v : V} (h : m[k]? = some v) : k ∈ m :=
  mem_iff_exists_entry.mpr ⟨v, h⟩

omit [DecidableEq K] [Std.LawfulEqOrd K] in
theorem no_entry_iff {m : Std.ExtTreeMap K V} {k : K} : m[k]? = none ↔ k ∉ m := by
  rw [Std.ExtTreeMap.mem_iff_isSome_getElem?, Option.not_isSome_iff_eq_none]

omit [DecidableEq K] [Std.LawfulEqOrd K] in
/-- The entries come in the order of their keys. -/
theorem mem_before_of_lt {m : Std.ExtTreeMap K V} {l₁ l₂ : List (K × V)} {e e' : K × V}
    (hsplit : m.toList = l₁ ++ e :: l₂) (he' : e' ∈ m.toList) (hlt : compare e'.1 e.1 = .lt) :
    e' ∈ l₁ := by
  have hsorted := Std.ExtTreeMap.ordered_keys_toList (t := m)
  rw [hsplit] at he' hsorted
  rcases List.mem_append.mp he' with hfirst | hlast
  · exact hfirst
  · exfalso
    rcases List.mem_cons.mp hlast with rfl | htail
    · rw [Std.ReflOrd.compare_self] at hlt
      simp at hlt
    · have hgt := (List.pairwise_cons.mp (List.pairwise_append.mp hsorted).2.1).1 _ htail
      rw [Std.OrientedOrd.eq_swap, hlt] at hgt
      simp at hgt

omit [DecidableEq K] [Std.LawfulEqOrd K] in
theorem look_empty : look (∅ : Std.ExtTreeMap K V) = fun _ => none := by
  funext k
  simp [look]

theorem look_insert (m : Std.ExtTreeMap K V) (k : K) (v : V) :
    look (m.insert k v) = (Write.put k v).apply (look m) := by
  funext k'
  by_cases h : k = k'
  · subst h
    simp [look, Write.apply, Write.at]
  · simp [look, Write.apply, Write.at, Std.ExtTreeMap.getElem?_insert, h]

theorem look_erase (m : Std.ExtTreeMap K V) (k : K) :
    look (m.erase k) = (Write.del k).apply (look m) := by
  funext k'
  by_cases h : k = k'
  · subst h
    simp [look, Write.apply, Write.at]
  · simp [look, Write.apply, Write.at, Std.ExtTreeMap.getElem?_erase, h]

/-- A map filled entry by entry. -/
theorem look_foldl_insert {α : Type} (key : α → K) (val : α → V) (l : List α)
    (m : Std.ExtTreeMap K V) :
    look (l.foldl (fun m a => m.insert (key a) (val a)) m)
      = replay (look m) (l.map fun a => .put (key a) (val a)) := by
  induction l generalizing m with
  | nil => rfl
  | cons a l ih =>
    rw [List.foldl_cons, ih, look_insert, List.map_cons]
    rfl

/-- A map filled with values that depend on the key only. -/
theorem look_foldl_insert_of_key {α : Type} (key : α → K) (f : K → V) (l : List α)
    (m : Std.ExtTreeMap K V) (k : K) :
    look (l.foldl (fun m a => m.insert (key a) (f (key a))) m) k
      = if k ∈ l.map key then some (f k) else look m k := by
  induction l generalizing m with
  | nil => simp
  | cons a l ih =>
    rw [List.foldl_cons, ih, look_insert, List.map_cons]
    by_cases hl : k ∈ l.map key
    · rw [if_pos hl, if_pos (List.mem_cons_of_mem _ hl)]
    · rw [if_neg hl]
      by_cases hk : k = key a
      · subst hk
        rw [if_pos List.mem_cons_self]
        simp [Write.apply, Write.at]
      · rw [if_neg (List.not_mem_cons_of_ne_of_not_mem hk hl)]
        simp [Write.apply, Write.at, Ne.symm hk]

/-- A map filled with the entries of another is that map. -/
theorem look_foldl_toList (m : Std.ExtTreeMap K V) :
    look (m.toList.foldl (fun (t : Std.ExtTreeMap K V) e => t.insert e.1 e.2) ∅) = look m := by
  rw [look_foldl_insert, look_empty]
  funext k
  refine Option.ext fun v => ?_
  rw [replay_map_eq_some_iff]
  constructor
  · rintro ⟨pre, e, post, hsplit, hput, -⟩
    have he : e ∈ m.toList := by simp [hsplit]
    obtain ⟨rfl, rfl⟩ : e.1 = k ∧ e.2 = v := by simpa [Write.at] using hput
    exact Std.ExtTreeMap.mem_toList_iff_getElem?_eq_some.mp he
  · intro hv
    obtain ⟨pre, post, hsplit⟩ :=
      List.append_of_mem (Std.ExtTreeMap.mem_toList_iff_getElem?_eq_some.mpr hv)
    refine ⟨pre, (k, v), post, hsplit, by simp [Write.at], fun e he => ?_⟩
    -- the keys are distinct, so no later entry has this one
    have hdistinct := m.distinct_keys_toList
    rw [hsplit] at hdistinct
    have hne : ¬ compare k e.1 = .eq :=
      (List.pairwise_cons.mp (List.pairwise_append.mp hdistinct).2.1).1 e he
    have hne' : e.1 ≠ k := fun h => hne (by rw [h, Std.ReflOrd.compare_self])
    simp [Write.at, hne']

/-- The entries of one map put into another. -/
theorem look_foldl_toList_onto (m t : Std.ExtTreeMap K V) (k : K) :
    look (m.toList.foldl (fun (t : Std.ExtTreeMap K V) e => t.insert e.1 e.2) t) k
      = (look m k).or (look t k) := by
  have hm := congrFun (look_foldl_toList m) k
  rw [look_foldl_insert, look_empty, replay_eq_getLast?] at hm
  rw [look_foldl_insert, replay_eq_getLast?, ← hm]
  -- either no entry speaks of the key, or the last one that does puts a value
  cases hlast : ((m.toList.map fun e => Write.put e.1 e.2).filterMap (Write.at k)).getLast? with
  | none => rfl
  | some o =>
    obtain ⟨w, hw, ho⟩ := List.mem_filterMap.mp (List.mem_of_getLast? hlast)
    obtain ⟨e, -, rfl⟩ := List.mem_map.mp hw
    simp only [Write.at, Option.ite_none_right_eq_some, Option.some.injEq] at ho
    obtain ⟨-, rfl⟩ := ho
    rfl

end OrderedMap

end LastWrite
