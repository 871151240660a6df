/-
Paths as they are written, and where they lead.

A path is a string; `parse` reads off whether it starts at the root, its names and whether
it ends in a separator, as the file system library of C++ does on POSIX.  `append` is its
operator `/`, `normal` its `lexically_normal`.  Where a path leads, without links, is the
`walk` over its names.

* `walk_normalNames` — normalising does not change where a path leads;
* `locate_normal`, `locate_append` — the same for whole paths, and for `append`;
* `walk_of_no_up` — without `..` a path leads down;
* `walk_reduced` — any names lead some levels up and then down.
-/
import Mathlib.Data.List.Induction

namespace LexicalPath

variable {α : Type} [DecidableEq α]

/-! ### Where a path leads -/

/-- One name: `.` stays, `..` goes up, any other name goes down. -/
def move (dot : α) (dir : List (List α)) (name : List α) : List (List α) :=
  if name = [dot] then dir
  else if name = [dot, dot] then dir.dropLast
  else dir ++ [name]

/-- A whole list of names. -/
def walk (dot : α) (dir names : List (List α)) : List (List α) := names.foldl (move dot) dir

variable {dot : α} {dir names : List (List α)} {name : List α}

@[simp] theorem walk_nil : walk dot dir [] = dir := rfl

theorem walk_append (names names' : List (List α)) :
    walk dot dir (names ++ names') = walk dot (walk dot dir names) names' := List.foldl_append

theorem walk_concat : walk dot dir (names ++ [name]) = move dot (walk dot dir names) name :=
  walk_append names [name]

/-- A name that is neither `.` nor `..`. -/
def IsPlain (dot : α) (name : List α) : Prop := name ≠ [dot] ∧ name ≠ [dot, dot]

theorem move_plain (h : IsPlain dot name) : move dot dir name = dir ++ [name] := by
  rw [move, if_neg h.1, if_neg h.2]

theorem move_up : move dot dir [dot, dot] = dir.dropLast := by
  rw [move, if_neg (by simp), if_pos rfl]

/-- Without `..` the names lead down. -/
theorem walk_of_no_up (h : [dot, dot] ∉ names) :
    walk dot dir names = dir ++ names.filter (· ≠ [dot]) := by
  induction names generalizing dir with
  | nil => simp
  | cons name names ih =>
    rw [List.mem_cons, not_or] at h
    show walk dot (move dot dir name) names = _
    rw [ih h.2]
    by_cases hdot : name = [dot]
    · simp [move, hdot]
    · rw [move_plain ⟨hdot, Ne.symm h.1⟩]
      simp [hdot]

/-! ### How far up and then down -/

/-- One name: `..` takes away the last name down, or goes one level further up. -/
def climb (dot : α) (s : ℕ × List (List α)) (name : List α) : ℕ × List (List α) :=
  if name = [dot] then s
  else if name = [dot, dot] then if s.2 = [] then (s.1 + 1, []) else (s.1, s.2.dropLast)
  else (s.1, s.2 ++ [name])

/-- How many levels up the names lead, and which names they then lead down. -/
def reduced (dot : α) (names : List (List α)) : ℕ × List (List α) :=
  names.foldl (climb dot) (0, [])

/-- **Names lead up and then down.** -/
theorem walk_reduced (dir names : List (List α)) :
    walk dot dir names
      = dir.take (dir.length - (reduced dot names).1) ++ (reduced dot names).2 := by
  induction names using List.reverseRecOn with
  | nil => simp [reduced]
  | append_singleton names name ih =>
    have hnext : reduced dot (names ++ [name]) = climb dot (reduced dot names) name :=
      List.foldl_append
    rw [hnext, walk_concat, ih, move, climb]
    by_cases hone : name = [dot]
    · rw [if_pos hone, if_pos hone]
    · rw [if_neg hone, if_neg hone]
      by_cases htwo : name = [dot, dot]
      · rw [if_pos htwo, if_pos htwo]
        by_cases hdown : (reduced dot names).2 = []
        · rw [if_pos hdown, hdown, List.append_nil, List.append_nil, List.dropLast_eq_take,
            List.take_take, List.length_take]
          congr 1
          omega
        · rw [if_neg hdown, List.dropLast_append_of_ne_nil hdown]
      · rw [if_neg htwo, if_neg htwo, List.append_assoc]

/-! ### The normal form of the names -/

/-- One name on top of a normal form: `..` takes away the plain name before it, and at the
root it goes nowhere. -/
def cancel (dot : α) (rooted : Bool) (names : List (List α)) (name : List α) : List (List α) :=
  if name = [dot] then names
  else if name = [dot, dot] then
    match names.getLast? with
    | none => if rooted then [] else [[dot, dot]]
    | some last => if last = [dot, dot] then names ++ [[dot, dot]] else names.dropLast
  else names ++ [name]

def normalNames (dot : α) (rooted : Bool) (names : List (List α)) : List (List α) :=
  names.foldl (cancel dot rooted) []

/-- One name leads to the same place before and after; there is no `.` in a normal form. -/
theorem walk_cancel {rooted : Bool} (hroot : rooted = true → dir = []) (hdot : [dot] ∉ names) :
    walk dot dir (cancel dot rooted names name) = move dot (walk dot dir names) name ∧
      [dot] ∉ cancel dot rooted names name := by
  rw [cancel]
  by_cases hone : name = [dot]
  · rw [if_pos hone, move, if_pos hone]
    exact ⟨rfl, hdot⟩
  · rw [if_neg hone]
    by_cases htwo : name = [dot, dot]
    · rw [if_pos htwo, htwo, move_up]
      rcases List.eq_nil_or_concat names with rfl | ⟨init, last, rfl⟩
      · cases rooted with
        | true =>
          obtain rfl := hroot rfl
          simp
        | false => exact ⟨move_up, by simp⟩
      · simp only [List.concat_eq_append, List.getLast?_append, List.getLast?_singleton,
          Option.some_or] at hdot ⊢
        by_cases hup : last = [dot, dot]
        · rw [if_pos hup, walk_concat, move_up]
          exact ⟨rfl, by simpa using hdot⟩
        · have hlast : IsPlain dot last := by
            refine ⟨?_, hup⟩
            rintro rfl
            exact hdot (by simp)
          rw [if_neg hup, walk_concat, move_plain hlast, List.dropLast_concat, List.dropLast_concat]
          exact ⟨rfl, fun hmem => hdot (List.mem_append_left _ hmem)⟩
    · rw [if_neg htwo]
      refine ⟨walk_concat, fun hmem => ?_⟩
      rcases List.mem_append.mp hmem with hin | hin
      · exact hdot hin
      · exact hone (List.mem_singleton.mp hin).symm

/-- **Normalising does not change where the names lead.** -/
theorem walk_normalNames {rooted : Bool} (hroot : rooted = true → dir = [])
    (names : List (List α)) :
    walk dot dir (normalNames dot rooted names) = walk dot dir names := by
  have hboth : walk dot dir (normalNames dot rooted names) = walk dot dir names ∧
      [dot] ∉ normalNames dot rooted names := by
    induction names using List.reverseRecOn with
    | nil => exact ⟨rfl, List.not_mem_nil⟩
    | append_singleton names name ih =>
      have hnext : normalNames dot rooted (names ++ [name])
          = cancel dot rooted (normalNames dot rooted names) name := List.foldl_append
      rw [hnext, walk_concat, ← ih.1]
      exact walk_cancel hroot ih.2
  exact hboth.1

/-! ### Paths -/

/-- A path as it is written: whether it starts at the root, its names, and whether a
separator follows the last of them. -/
structure Path (α : Type) where
  rooted : Bool
  names : List (List α)
  trailing : Bool
deriving DecidableEq, Repr

/-- The path that a string spells; several separators in a row are one. -/
def parse (sep : α) (s : List α) : Path α where
  rooted := s.head? = some sep
  names := (s.splitOn sep).filter (· ≠ [])
  trailing := (s.splitOn sep).filter (· ≠ []) ≠ [] ∧ s.getLast? = some sep

namespace Path

/-- The operator `/`: a rooted path replaces the first one, and the empty one leaves a
separator. -/
def append (p q : Path α) : Path α :=
  if q.rooted then q
  else
    { rooted := p.rooted
      names := p.names ++ q.names
      trailing := if q.names = [] then p.names ≠ [] else q.trailing }

/-- `lexically_normal`: a `.` or `..` that has been taken away at the end leaves its
separator, and none follows a `..`. -/
def normal (dot : α) (p : Path α) : Path α :=
  let names := normalNames dot p.rooted p.names
  { rooted := p.rooted
    names := names
    trailing := names ≠ [] ∧ names.getLast? ≠ some [dot, dot] ∧
      (p.trailing = true ∨ p.names.getLast? = some [dot] ∨ p.names.getLast? = some [dot, dot]) }

/-- Where a path leads from a directory. -/
def locate (dot : α) (cwd : List (List α)) (p : Path α) : List (List α) :=
  walk dot (if p.rooted then [] else cwd) p.names

theorem locate_normal (cwd : List (List α)) (p : Path α) :
    (p.normal dot).locate dot cwd = p.locate dot cwd :=
  walk_normalNames (fun h => if_pos h) p.names

/-- The second path goes on where the first one leads. -/
theorem locate_append (cwd : List (List α)) (p q : Path α) :
    (p.append q).locate dot cwd
      = walk dot (if q.rooted then [] else p.locate dot cwd) q.names := by
  rw [append]
  split
  · rename_i hrooted
    rw [locate, if_pos hrooted]
  · exact walk_append p.names q.names

end Path

end LexicalPath
