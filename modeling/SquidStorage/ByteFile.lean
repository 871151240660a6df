/-
Plain files: finite arrays that grow by zero fill.

`write`, `truncate` and `read` say, position by position, what a file holds
after each operation.  A program that keeps the file in a vector does the same
with `resize` and copies: `truncate_eq`, `write_eq` and `read_eq` are the bridge.
-/
import Mathlib.Data.List.Basic
import Mathlib.Data.Nat.Notation

namespace ByteFile

variable {α : Type} (zero : α)

/-! ### The reference -/

/-- The array of a given size with the given elements. -/
def tabulate (size : ℕ) (f : ℕ → α) : List α := (List.range size).map f

/-- The file after `buf` has been written at `offset`. -/
def write (file : List α) (offset : ℕ) (buf : List α) : List α :=
  tabulate (max file.length (offset + buf.length)) fun i =>
    if offset ≤ i ∧ i < offset + buf.length then buf.getD (i - offset) zero
    else file.getD i zero

/-- The file cut down or filled up to `size`. -/
def truncate (file : List α) (size : ℕ) : List α := tabulate size fun i => file.getD i zero

/-- What a read of `size` elements at `offset` returns; it stops at the end of the file. -/
def read (file : List α) (size offset : ℕ) : List α :=
  tabulate (min size (file.length - offset)) fun i => file.getD (offset + i) zero

/-! ### Vectors -/

/-- `vector::resize(size, zero)`. -/
def resize (data : List α) (size : ℕ) : List α :=
  data.take size ++ List.replicate (size - data.length) zero

/-- A vector that is extended where it is too short, and then overwritten from `offset` on. -/
def overwrite (data : List α) (offset : ℕ) (buf : List α) : List α :=
  let newEnd := offset + buf.length
  let data := if data.length < newEnd then resize zero data newEnd else data
  data.take offset ++ buf ++ data.drop newEnd

/-- What is copied out of a vector: nothing past its end. -/
def copyOut (data : List α) (size offset : ℕ) : List α :=
  if data.length ≤ offset then []
  else (data.drop offset).take (min size (data.length - offset))

theorem getElem?_tabulate (size : ℕ) (f : ℕ → α) (i : ℕ) :
    (tabulate size f)[i]? = if i < size then some (f i) else none := by
  rw [tabulate, List.getElem?_map]
  by_cases hi : i < size
  · rw [if_pos hi, List.getElem?_range hi]
    rfl
  · rw [if_neg hi, List.getElem?_eq_none (by simpa using hi)]
    rfl

theorem getD_of_lt {l : List α} {i : ℕ} (h : i < l.length) : some (l.getD i zero) = l[i]? := by
  rw [List.getD_eq_getElem?_getD, List.getElem?_eq_getElem h, Option.getD_some]

theorem getD_of_le {l : List α} {i : ℕ} (h : l.length ≤ i) : l.getD i zero = zero := by
  rw [List.getD_eq_getElem?_getD, List.getElem?_eq_none h, Option.getD_none]

theorem getElem?_resize (data : List α) (size i : ℕ) :
    (resize zero data size)[i]? = if i < size then some (data.getD i zero) else none := by
  rw [resize, List.getElem?_append, List.length_take]
  by_cases hold : i < min size data.length
  · rw [if_pos hold, if_pos (by omega), List.getElem?_take_of_lt (by omega),
      getD_of_lt zero (by omega)]
  · -- past the old contents: zeros up to the new size, then nothing
    rw [if_neg hold, List.getElem?_replicate]
    have hiff : i - min size data.length < size - data.length ↔ i < size := by omega
    simp only [hiff]
    split
    · rw [getD_of_le zero (by omega)]
    · rfl

theorem length_resize (data : List α) (size : ℕ) : (resize zero data size).length = size := by
  rw [resize, List.length_append, List.length_take, List.length_replicate]
  omega

theorem truncate_eq (file : List α) (size : ℕ) :
    truncate zero file size = resize zero file size := by
  apply List.ext_getElem?
  intro i
  rw [truncate, getElem?_tabulate, getElem?_resize]

/-- The vector `overwrite` copies into: the old elements, then zeros. -/
theorem getElem?_extended (data : List α) (size i : ℕ) :
    (if data.length < size then resize zero data size else data)[i]?
      = if i < max data.length size then some (data.getD i zero) else none := by
  split
  · rename_i hshort
    rw [getElem?_resize, Nat.max_eq_right (Nat.le_of_lt hshort)]
  · rename_i hlong
    rw [Nat.max_eq_left (by omega)]
    split
    · rename_i hi
      exact (getD_of_lt zero hi).symm
    · rename_i hi
      exact List.getElem?_eq_none (by omega)

theorem write_eq (file : List α) (offset : ℕ) (buf : List α) :
    write zero file offset buf = overwrite zero file offset buf := by
  apply List.ext_getElem?
  intro i
  have hext := getElem?_extended zero file (offset + buf.length)
  have hlen : (if file.length < offset + buf.length then resize zero file (offset + buf.length)
      else file).length = max file.length (offset + buf.length) := by
    split
    · rw [length_resize]
      omega
    · omega
  rw [write, getElem?_tabulate]
  simp only [overwrite]
  generalize (if file.length < offset + buf.length then resize zero file (offset + buf.length)
    else file) = data at hext hlen
  have htake : (data.take offset).length = offset := by
    rw [List.length_take]
    omega
  rw [List.append_assoc, List.getElem?_append, htake]
  -- before the buffer, inside it, after it
  by_cases hbefore : i < offset
  · have hout : ¬ (offset ≤ i ∧ i < offset + buf.length) := by omega
    rw [if_pos hbefore, List.getElem?_take_of_lt hbefore, hext, if_neg hout]
  · rw [if_neg hbefore, List.getElem?_append]
    by_cases hin : i - offset < buf.length
    · rw [if_pos hin, if_pos (by omega), if_pos (by omega), getD_of_lt zero hin]
    · have hout : ¬ (offset ≤ i ∧ i < offset + buf.length) := by omega
      have hpos : offset + buf.length + (i - offset - buf.length) = i := by omega
      rw [if_neg hin, List.getElem?_drop, hpos, hext, if_neg hout]

theorem read_eq (file : List α) (size offset : ℕ) :
    read zero file size offset = copyOut file size offset := by
  apply List.ext_getElem?
  intro i
  rw [read, getElem?_tabulate, copyOut]
  split
  · rename_i hi
    rw [if_neg (by omega), List.getElem?_take_of_lt hi, List.getElem?_drop,
      getD_of_lt zero (by omega)]
  · rename_i hi
    split
    · rfl
    · rw [List.getElem?_take_eq_none (by omega)]

end ByteFile
