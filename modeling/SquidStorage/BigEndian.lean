/-
Big-endian byte strings.

`beBytes k v` writes a number on `k` bytes, most significant byte first;
`beNat bs` reads a byte string back.  Reading what was written gives the number
modulo `256 ^ k` (`beNat_beBytes`), and writing what was read gives the bytes
(`beBytes_beNat`).
-/
import Mathlib.Tactic.Ring
import Mathlib.Data.Nat.ModEq

/-- A string of bytes: a `std::vector<uint8_t>`, and a `std::string` too. -/
abbrev Bytes : Type := List UInt8

namespace BigEndian

/-- The number `v` on `k` bytes, most significant byte first
(`(v >> 8 * i) & 0xFF` for `i = k - 1, …, 0`). -/
def beBytes : ℕ → ℕ → Bytes
  | 0, _ => []
  | k + 1, v => UInt8.ofNat (v / 256 ^ k) :: beBytes k v

/-- The number a byte string stands for (`v = (v << 8) | p[i]`). -/
def beNat (bs : Bytes) : ℕ := bs.foldl (fun acc b => acc * 256 + b.toNat) 0

@[simp] theorem length_beBytes (k v : ℕ) : (beBytes k v).length = k := by
  induction k with
  | zero => rfl
  | succ k ih => simp [beBytes, ih]

/-- The accumulator of `beNat` is shifted past the remaining bytes. -/
private theorem foldl_beNat (acc : ℕ) (bs : Bytes) :
    bs.foldl (fun acc b => acc * 256 + b.toNat) acc = acc * 256 ^ bs.length + beNat bs := by
  induction bs generalizing acc with
  | nil => simp [beNat]
  | cons b bs ih =>
    -- once for the accumulator at hand and once for that of `beNat (b :: bs)`
    have htail := ih (0 * 256 + b.toNat)
    simp only [List.foldl_cons, List.length_cons, beNat] at htail ⊢
    rw [ih, htail, beNat]
    ring

theorem beNat_cons (b : UInt8) (bs : Bytes) :
    beNat (b :: bs) = b.toNat * 256 ^ bs.length + beNat bs := by
  have h := foldl_beNat (0 * 256 + b.toNat) bs
  simpa [beNat] using h

/-- Reading back what was written on `k` bytes. -/
theorem beNat_beBytes (k v : ℕ) : beNat (beBytes k v) = v % 256 ^ k := by
  induction k with
  | zero => simp [beBytes, beNat, Nat.mod_one]
  | succ k ih =>
    rw [beBytes, beNat_cons, length_beBytes, ih]
    -- the leading byte is the quotient by `256 ^ k`, reduced modulo `256`
    have hbyte : (UInt8.ofNat (v / 256 ^ k)).toNat = v / 256 ^ k % 256 := by
      simp [UInt8.toNat_ofNat']
    rw [hbyte, pow_succ, Nat.mod_mul]
    ring

theorem beNat_beBytes_of_lt {k v : ℕ} (h : v < 256 ^ k) : beNat (beBytes k v) = v := by
  rw [beNat_beBytes, Nat.mod_eq_of_lt h]

theorem beNat_lt (bs : Bytes) : beNat bs < 256 ^ bs.length := by
  induction bs with
  | nil => simp [beNat]
  | cons b bs ih =>
    have hb : b.toNat + 1 ≤ 256 := b.toNat_lt
    calc beNat (b :: bs) = b.toNat * 256 ^ bs.length + beNat bs := beNat_cons b bs
      _ < b.toNat * 256 ^ bs.length + 256 ^ bs.length := by omega
      _ = (b.toNat + 1) * 256 ^ bs.length := by ring
      _ ≤ 256 * 256 ^ bs.length := Nat.mul_le_mul_right _ hb
      _ = 256 ^ (b :: bs).length := by rw [List.length_cons]; ring

/-- Only the number modulo `256 ^ k` is written. -/
theorem beBytes_add_mul (k a v : ℕ) : beBytes k (a * 256 ^ k + v) = beBytes k v := by
  induction k generalizing a with
  | zero => rfl
  | succ k ih =>
    have hpos : 0 < 256 ^ k := Nat.pow_pos (by decide)
    have hshift : a * 256 ^ (k + 1) + v = (a * 256) * 256 ^ k + v := by ring
    have hquot : (a * 256 * 256 ^ k + v) / 256 ^ k = a * 256 + v / 256 ^ k := by
      rw [Nat.add_comm, Nat.add_mul_div_right _ _ hpos, Nat.add_comm]
    have hbyte : UInt8.ofNat (a * 256 + v / 256 ^ k) = UInt8.ofNat (v / 256 ^ k) := by
      refine UInt8.toNat_inj.mp ?_
      rw [UInt8.toNat_ofNat', UInt8.toNat_ofNat', Nat.add_comm]
      exact Nat.add_mul_mod_self_right _ _ _
    rw [beBytes, beBytes, hshift, hquot, hbyte, ih]

/-- Writing back what was read. -/
theorem beBytes_beNat (bs : Bytes) : beBytes bs.length (beNat bs) = bs := by
  induction bs with
  | nil => rfl
  | cons b bs ih =>
    have hpos : 0 < 256 ^ bs.length := Nat.pow_pos (by decide)
    -- the leading byte is the quotient, and the rest does not see it
    have hquot : (b.toNat * 256 ^ bs.length + beNat bs) / 256 ^ bs.length = b.toNat := by
      rw [Nat.add_comm, Nat.add_mul_div_right _ _ hpos, Nat.div_eq_of_lt (beNat_lt bs), Nat.zero_add]
    rw [List.length_cons, beBytes, beNat_cons, hquot, beBytes_add_mul, ih, UInt8.ofNat_toNat]

end BigEndian
