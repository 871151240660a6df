/-
Formatted text on byte strings, as C++ streams read and write it.

* `extractWord` — `stream >> std::string`: skip blanks, take a maximal word;
* `extractInt32` — `stream >> int`: skip blanks, an optional sign, decimal
  digits, failure when there is no digit or the value does not fit;
* `readUint32` — `stream >> uint32_t`;
* `stoi` — `std::stoi` is the same conversion, the rest being dropped;
* `toStr` — `std::to_string(int)`;
* `getlines` — the successive results of `std::getline`.

The round trips: `extractWord_append` for a blank-free word,
`extractInt32_toStr` and `readUint32_decimal` for a printed number,
`getlines_flatMap` for lines.
-/
import SquidStorage.BigEndian
import Mathlib.Data.List.TakeWhile

namespace TextStream

/-- The blank byte that separates words. -/
def space : UInt8 := 0x20

/-- `std::isspace` in the default locale. -/
def isSpace (b : UInt8) : Bool := b == 0x20 || (0x09 ≤ b && b ≤ 0x0d)

/-- The ASCII decimal digits. -/
def isDigit (b : UInt8) : Bool := 0x30 ≤ b && b ≤ 0x39

/-- The decimal digits of a number, most significant first. -/
def decimal (n : ℕ) : Bytes := (Nat.toDigits 10 n).map fun c => UInt8.ofNat c.toNat

/-- `std::to_string(int)`. -/
def toStr (v : Int32) : Bytes :=
  if v.toInt < 0 then 0x2d :: decimal v.toInt.natAbs else decimal v.toInt.natAbs

/-- The value of a digit string. -/
def digitsValue (ds : Bytes) : ℕ := ds.foldl (fun acc b => 10 * acc + (b.toNat - 48)) 0

/-- An optional sign: whether it is a minus, and what follows it. -/
def scanSign : Bytes → Bool × Bytes
  | [] => (false, [])
  | b :: bs => if b = 0x2d then (true, bs) else if b = 0x2b then (false, bs) else (false, b :: bs)

/-- `stream >> int`. -/
def extractInt32 (s : Bytes) : Option (Int32 × Bytes) :=
  let (neg, t) := scanSign (s.dropWhile isSpace)
  let ds := t.takeWhile isDigit
  let v : ℤ := if neg then -(digitsValue ds : ℤ) else digitsValue ds
  if ds = [] then none
  else if v < -2 ^ 31 ∨ 2 ^ 31 ≤ v then none
  else some (Int32.ofInt v, t.dropWhile isDigit)

/-- `stream >> uint32_t` into a variable: `0` when there is no digit, the largest
value when the number is too large, and a minus sign negates modulo `2 ^ 32`. -/
def readUint32 (s : Bytes) : UInt32 :=
  let (neg, t) := scanSign (s.dropWhile isSpace)
  let n := digitsValue (t.takeWhile isDigit)
  if 2 ^ 32 ≤ n then 0xFFFFFFFF
  else if neg then -UInt32.ofNat n
  else UInt32.ofNat n

/-- `std::stoi`; `none` stands for the exception. -/
def stoi (s : Bytes) : Option Int32 := (extractInt32 s).map Prod.fst

/-- `stream >> std::string`. -/
def extractWord (s : Bytes) : Option (Bytes × Bytes) :=
  let t := s.dropWhile isSpace
  let w := t.takeWhile (fun b => !isSpace b)
  if w = [] then none else some (w, t.dropWhile fun b => !isSpace b)

/-- The successive results of `std::getline(in, line, delim)`. -/
def getlines (delim : UInt8) : Bytes → List Bytes
  | [] => []
  | b :: bs =>
    if b = delim then [] :: getlines delim bs
    else match getlines delim bs with
      | [] => [[b]]
      | l :: ls => (b :: l) :: ls

/-! ### Words -/

/-- A word that `extractWord` reads back whole. -/
def IsWord (w : Bytes) : Prop := w ≠ [] ∧ ∀ b ∈ w, isSpace b = false

instance (w : Bytes) : Decidable (IsWord w) :=
  have : Decidable (∀ b ∈ w, isSpace b = false) := List.decidableBAll _ w
  inferInstanceAs (Decidable (_ ∧ _))

/-- `rest` starts with a blank or is empty. -/
def BlankStart (rest : Bytes) : Prop := ∀ b ∈ rest.head?, isSpace b = true

theorem takeWhile_append_stop {p : UInt8 → Bool} {w rest : Bytes} (hw : ∀ b ∈ w, p b = true)
    (hrest : ∀ b ∈ rest.head?, p b = false) :
    (w ++ rest).takeWhile p = w ∧ (w ++ rest).dropWhile p = rest := by
  rw [List.takeWhile_append_of_pos hw, List.dropWhile_append_of_pos hw]
  cases rest with
  | nil => simp
  | cons b bs =>
    have hb : p b = false := hrest b (by simp)
    simp [hb]

theorem dropWhile_isSpace_word {w : Bytes} (hw : IsWord w) (rest : Bytes) :
    (w ++ rest).dropWhile isSpace = w ++ rest := by
  obtain ⟨hne, hall⟩ := hw
  cases w with
  | nil => exact absurd rfl hne
  | cons b bs =>
    have hb : isSpace b = false := hall b List.mem_cons_self
    simp [hb]

/-- A blank-free word is read back whole. -/
theorem extractWord_append {w rest : Bytes} (hw : IsWord w) (hrest : BlankStart rest) :
    extractWord (w ++ rest) = some (w, rest) := by
  have hword : ∀ b ∈ w, (!isSpace b) = true := fun b hb => by simp [hw.2 b hb]
  have hstop : ∀ b ∈ rest.head?, (!isSpace b) = false := fun b hb => by simp [hrest b hb]
  obtain ⟨htake, hdrop⟩ := takeWhile_append_stop hword hstop
  simp only [extractWord, dropWhile_isSpace_word hw, htake, hdrop, if_neg hw.1]

/-- What is read is a word. -/
theorem isWord_of_extractWord {s w rest : Bytes} (h : extractWord s = some (w, rest)) :
    IsWord w := by
  simp only [extractWord] at h
  split at h
  · simp at h
  · rename_i hne
    obtain ⟨rfl, -⟩ := Prod.mk.inj (Option.some.inj h)
    refine ⟨hne, fun b hb => ?_⟩
    simpa using List.mem_takeWhile_imp hb

/-! ### Integers -/

private theorem digitByte_toNat {c : Char} (h : c.isDigit) :
    (UInt8.ofNat c.toNat).toNat = c.toNat := by
  simp only [Char.isDigit, Bool.and_eq_true, decide_eq_true_eq] at h
  have hc : c.toNat ≤ 57 := h.2
  rw [UInt8.toNat_ofNat', Nat.mod_eq_of_lt (by omega)]

theorem isDigit_of_mem_decimal {n : ℕ} {b : UInt8} (h : b ∈ decimal n) : isDigit b = true := by
  obtain ⟨c, hc, rfl⟩ := List.mem_map.mp h
  have hdigit : c.isDigit := Nat.isDigit_of_mem_toDigits (by decide) (by decide) hc
  have hbyte := digitByte_toNat hdigit
  simp only [Char.isDigit, Bool.and_eq_true, decide_eq_true_eq] at hdigit
  have hlo : 48 ≤ c.toNat := hdigit.1
  have hhi : c.toNat ≤ 57 := hdigit.2
  simp only [isDigit, Bool.and_eq_true, decide_eq_true_eq, UInt8.le_iff_toNat_le, hbyte]
  exact ⟨hlo, hhi⟩

theorem decimal_ne_nil (n : ℕ) : decimal n ≠ [] := by
  simp [decimal, Nat.toDigits_ne_nil]

/-- Reading the digits of a number gives the number back. -/
theorem digitsValue_decimal (n : ℕ) : digitsValue (decimal n) = n := by
  have hfold : ∀ (cs : List Char) (acc : ℕ), (∀ c ∈ cs, c.isDigit) →
      (cs.map fun c => UInt8.ofNat c.toNat).foldl (fun acc b => 10 * acc + (b.toNat - 48)) acc
        = Nat.ofDigitChars 10 cs acc := by
    intro cs
    -- both sides read from the left with the same accumulator
    induction cs with
    | nil => intro acc _; simp
    | cons c cs ih =>
      intro acc hcs
      rw [List.map_cons, List.foldl_cons, digitByte_toNat (hcs c List.mem_cons_self),
        ih _ (fun d hd => hcs d (List.mem_cons_of_mem _ hd)), Nat.ofDigitChars_cons]
      rfl
  rw [digitsValue, decimal, hfold _ 0 fun c hc =>
    Nat.isDigit_of_mem_toDigits (by decide) (by decide) hc]
  exact Nat.ofDigitChars_ten_toDigits

/-- Skipping the blank in front of a number changes nothing. -/
theorem extractInt32_space (s : Bytes) : extractInt32 (space :: s) = extractInt32 s := by
  have : (space :: s).dropWhile isSpace = s.dropWhile isSpace := by
    simp [space, isSpace]
  simp only [extractInt32, this]

theorem isSpace_of_isDigit {b : UInt8} (h : isDigit b = true) : isSpace b = false := by
  simp only [isDigit, isSpace, Bool.and_eq_true, decide_eq_true_eq, UInt8.le_iff_toNat_le,
    Bool.or_eq_false_iff, beq_eq_false_iff_ne, Bool.and_eq_false_iff, decide_eq_false_iff_not]
    at h ⊢
  obtain ⟨hlo, hhi⟩ := h
  refine ⟨?_, Or.inr ?_⟩
  · rintro rfl
    exact absurd hlo (by decide)
  · -- the control blanks end at 13, below the first digit
    intro hle
    have h48 : (0x30 : UInt8).toNat = 48 := rfl
    have h13 : (0x0d : UInt8).toNat = 13 := rfl
    omega

private theorem scanSign_of_isDigit {b : UInt8} {bs : Bytes} (h : isDigit b = true) :
    scanSign (b :: bs) = (false, b :: bs) := by
  have hminus : b ≠ 0x2d := by rintro rfl; exact absurd h (by decide)
  have hplus : b ≠ 0x2b := by rintro rfl; exact absurd h (by decide)
  rw [scanSign, if_neg hminus, if_neg hplus]

/-- The sign and the digits of a printed number. -/
private theorem scanSign_decimal (n : ℕ) (rest : Bytes) :
    scanSign ((decimal n ++ rest).dropWhile isSpace) = (false, decimal n ++ rest) := by
  obtain ⟨d, ds, hd⟩ : ∃ d ds, decimal n = d :: ds :=
    List.exists_cons_of_ne_nil (decimal_ne_nil _)
  have hdigit : isDigit d = true := isDigit_of_mem_decimal (n := n) (by simp [hd])
  rw [hd, List.cons_append, List.dropWhile_cons_of_neg (by simp [isSpace_of_isDigit hdigit]),
    scanSign_of_isDigit hdigit]

/-- A printed `uint32_t` is read back, whatever non-digit follows it. -/
theorem readUint32_decimal (v : UInt32) {rest : Bytes}
    (hrest : ∀ b ∈ rest.head?, isDigit b = false) :
    readUint32 (decimal v.toNat ++ rest) = v := by
  have hdigits : ∀ b ∈ decimal v.toNat, isDigit b = true := fun b hb => isDigit_of_mem_decimal hb
  obtain ⟨htake, -⟩ := takeWhile_append_stop hdigits hrest
  have hlt : ¬ 2 ^ 32 ≤ v.toNat := by
    have := v.toNat_lt
    omega
  simp only [readUint32, scanSign_decimal, htake, digitsValue_decimal]
  rw [if_neg hlt, if_neg (by simp), UInt32.ofNat_toNat]

/-- The sign and the digits of a printed integer, read back. -/
private theorem scanSign_toStr (v : Int32) (rest : Bytes) :
    scanSign ((toStr v ++ rest).dropWhile isSpace)
      = (decide (v.toInt < 0), decimal v.toInt.natAbs ++ rest) := by
  by_cases hneg : v.toInt < 0
  · have hdash : isSpace 0x2d = false := by decide
    simp [toStr, hneg, hdash, scanSign]
  · simp only [toStr, hneg, if_false, decide_false]
    exact scanSign_decimal _ _

/-- **A printed integer is read back**, whatever non-digit follows it. -/
theorem extractInt32_toStr (v : Int32) {rest : Bytes}
    (hrest : ∀ b ∈ rest.head?, isDigit b = false) :
    extractInt32 (toStr v ++ rest) = some (v, rest) := by
  have hdigits : ∀ b ∈ decimal v.toInt.natAbs, isDigit b = true :=
    fun b hb => isDigit_of_mem_decimal hb
  obtain ⟨htake, hdrop⟩ := takeWhile_append_stop hdigits hrest
  -- sign and absolute value give the number back
  have hval : (if decide (v.toInt < 0) = true then -(v.toInt.natAbs : ℤ) else v.toInt.natAbs)
      = v.toInt := by
    by_cases hneg : v.toInt < 0
    · rw [if_pos (by simpa using hneg)]
      omega
    · rw [if_neg (by simpa using hneg)]
      omega
  have hlo : -2 ^ 31 ≤ v.toInt := v.le_toInt
  have hhi : v.toInt < 2 ^ 31 := v.toInt_lt
  simp only [extractInt32, scanSign_toStr, htake, hdrop, digitsValue_decimal, hval,
    if_neg (decimal_ne_nil _)]
  rw [if_neg (by omega), Int32.ofInt_toInt]

theorem not_isSpace_of_mem_toStr {v : Int32} {b : UInt8} (h : b ∈ toStr v) :
    isSpace b = false := by
  rw [toStr] at h
  split at h
  · rcases List.mem_cons.mp h with rfl | hmem
    · decide
    · exact isSpace_of_isDigit (isDigit_of_mem_decimal hmem)
  · exact isSpace_of_isDigit (isDigit_of_mem_decimal h)

/-! ### Lines -/

theorem getlines_line {delim : UInt8} {line : Bytes} (hline : delim ∉ line) (rest : Bytes) :
    getlines delim (line ++ delim :: rest) = line :: getlines delim rest := by
  induction line with
  | nil => simp [getlines]
  | cons b bs ih =>
    obtain ⟨hb, hbs⟩ : delim ≠ b ∧ delim ∉ bs := by simpa using hline
    rw [List.cons_append, getlines, if_neg (Ne.symm hb), ih hbs]

/-- A last line that is not terminated. -/
theorem getlines_last {delim : UInt8} {line : Bytes} (hne : line ≠ []) (hline : delim ∉ line) :
    getlines delim line = [line] := by
  induction line with
  | nil => exact absurd rfl hne
  | cons b bs ih =>
    obtain ⟨hb, hbs⟩ : delim ≠ b ∧ delim ∉ bs := by simpa using hline
    rw [getlines, if_neg (Ne.symm hb)]
    cases bs with
    | nil => rfl
    | cons c cs => rw [ih (by simp) hbs]

/-- Lines written one after the other are read back one after the other. -/
theorem getlines_flatMap {α : Type} {delim : UInt8} (line : α → Bytes) (l : List α)
    (hl : ∀ a ∈ l, delim ∉ line a) :
    getlines delim (l.flatMap fun a => line a ++ [delim]) = l.map line := by
  induction l with
  | nil => rfl
  | cons a l ih =>
    rw [List.flatMap_cons, List.append_assoc, List.singleton_append,
      getlines_line (hl a List.mem_cons_self), ih fun b hb => hl b (List.mem_cons_of_mem _ hb),
      List.map_cons]

/-- A line does not contain the byte that ends it. -/
theorem not_mem_of_mem_getlines {delim : UInt8} {text line : Bytes}
    (h : line ∈ getlines delim text) : delim ∉ line := by
  induction text generalizing line with
  | nil => simp [getlines] at h
  | cons b bs ih =>
    rw [getlines] at h
    split at h
    · rcases List.mem_cons.mp h with rfl | hrest
      · simp
      · exact ih hrest
    · rename_i hb
      cases hlines : getlines delim bs with
      | nil =>
        rw [hlines] at h
        rw [List.mem_singleton.mp h]
        simpa using Ne.symm hb
      | cons l ls =>
        rw [hlines] at h ih
        rcases List.mem_cons.mp h with rfl | hrest
        · rw [List.mem_cons, not_or]
          exact ⟨Ne.symm hb, ih List.mem_cons_self⟩
        · exact ih (List.mem_cons_of_mem _ hrest)

/-! ### Text that is cut off -/

/-- A prefix of two texts ends in the first or in the second one. -/
theorem prefix_append_cases {P A B : Bytes} (h : P <+: A ++ B) :
    P <+: A ∨ ∃ R, P = A ++ R ∧ R <+: B := by
  rcases List.prefix_or_prefix_of_prefix h (List.prefix_append A B) with hA | ⟨R, rfl⟩
  · exact .inl hA
  · exact .inr ⟨R, rfl, (List.prefix_append_right_inj A).mp h⟩

/-- Lines and the beginning of another one. -/
theorem getlines_flatMap_append {α : Type} {delim : UInt8} (line : α → Bytes) (l : List α)
    (hl : ∀ a ∈ l, delim ∉ line a) {last : Bytes} (hlast : delim ∉ last) :
    getlines delim (l.flatMap (fun a => line a ++ [delim]) ++ last)
      = l.map line ++ if last = [] then [] else [last] := by
  induction l with
  | nil =>
    by_cases hnil : last = []
    · rw [if_pos hnil, hnil]
      rfl
    · rw [if_neg hnil]
      exact getlines_last hnil hlast
  | cons a l ih =>
    rw [List.flatMap_cons, List.append_assoc, List.append_assoc, List.singleton_append,
      getlines_line (hl a List.mem_cons_self), ih fun b hb => hl b (List.mem_cons_of_mem _ hb),
      List.map_cons, List.cons_append]

/-- **Where lines can be cut off**: after some of them, or within the next one. -/
theorem prefix_flatMap_lines {α : Type} {delim : UInt8} (line : α → Bytes) {l : List α} {P : Bytes}
    (h : P <+: l.flatMap fun a => line a ++ [delim]) :
    ∃ l₁ l₂ Q, l = l₁ ++ l₂ ∧ P = l₁.flatMap (fun a => line a ++ [delim]) ++ Q ∧
      (Q = [] ∨ ∃ a ∈ l₂.head?, Q <+: line a) := by
  induction l generalizing P with
  | nil => exact ⟨[], [], [], rfl, List.prefix_nil.mp h, .inl rfl⟩
  | cons a l ih =>
    rw [List.flatMap_cons] at h
    rcases prefix_append_cases h with hline | ⟨R, rfl, hR⟩
    · rcases List.prefix_concat_iff.mp hline with rfl | hcut
      · exact ⟨[a], l, [], rfl, by simp, .inl rfl⟩
      · exact ⟨[], a :: l, P, rfl, rfl, .inr ⟨a, rfl, hcut⟩⟩
    · obtain ⟨l₁, l₂, Q, rfl, rfl, hQ⟩ := ih hR
      exact ⟨a :: l₁, l₂, Q, rfl, by simp, hQ⟩

end TextStream
