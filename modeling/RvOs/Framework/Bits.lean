import Mathlib.Data.Nat.Bitwise
import Mathlib.Tactic.Common

/-!
# Fields of 64-bit words

Masks and shifts of 64-bit words as arithmetic: a low mask is a remainder
(`toNat_and_low`), a shifted field a quotient (`toNat_field`), clearing the
low bits rounds down (`toNat_and_not_low`), and two values with no common bit
are put together by addition (`toNat_shiftLeft_or`).
-/

namespace RvOs.Bits

variable {w : Nat} (x : BitVec w) {k n : Nat}

theorem toNat_and_low {m : BitVec w} (hm : m.toNat = 2 ^ k - 1) :
    (x &&& m).toNat = x.toNat % 2 ^ k := by
  rw [BitVec.toNat_and, hm, Nat.and_two_pow_sub_one_eq_mod]

theorem toNat_field {m : BitVec w} (hm : m.toNat = 2 ^ k - 1) :
    ((x >>> n) &&& m).toNat = x.toNat / 2 ^ n % 2 ^ k := by
  rw [toNat_and_low _ hm, BitVec.toNat_ushiftRight, Nat.shiftRight_eq_div_pow]

/-- Clearing the low bits rounds down. -/
theorem toNat_and_not_low {m : BitVec w} (hm : m.toNat = 2 ^ k - 1) :
    (x &&& ~~~m).toNat = x.toNat - x.toNat % 2 ^ k := by
  have hz : (x &&& m) &&& (x &&& ~~~m) = 0#w := by
    ext i hi; simp only [BitVec.getElem_and, BitVec.getElem_not, BitVec.getElem_zero]
    cases x[i] <;> cases m[i] <;> rfl
  have hs : (x &&& m) + (x &&& ~~~m) = x := by
    rw [BitVec.add_eq_or_of_and_eq_zero _ _ hz]
    ext i hi; simp only [BitVec.getElem_or, BitVec.getElem_and, BitVec.getElem_not]
    cases x[i] <;> cases m[i] <;> rfl
  have h := BitVec.toNat_add_of_and_eq_zero hz
  rw [hs, toNat_and_low x hm] at h
  omega

/-- Low bits set beside a shifted value. -/
theorem toNat_shiftLeft_or {y : BitVec w} (hx : x.toNat * 2 ^ k < 2 ^ w) (hy : y.toNat < 2 ^ k) :
    ((x <<< k) ||| y).toNat = x.toNat * 2 ^ k + y.toNat := by
  rw [BitVec.toNat_or, BitVec.toNat_shiftLeft, Nat.shiftLeft_eq, Nat.mod_eq_of_lt hx, Nat.mul_comm,
    Nat.two_pow_add_eq_or_of_lt hy]

/-- The bits of `m` read from a word whose low bits are `y`. -/
theorem and_eq_of_low {y m : BitVec w} (h : x.toNat % 2 ^ k = y.toNat) (hm : m.toNat < 2 ^ k) :
    x &&& m = y &&& m := by
  apply BitVec.eq_of_toNat_eq
  rw [BitVec.toNat_and, BitVec.toNat_and, ← h]
  apply Nat.eq_of_testBit_eq
  intro i
  rw [Nat.testBit_and, Nat.testBit_and, Nat.testBit_mod_two_pow]
  by_cases hi : i < k
  · simp [hi]
  · have : m.toNat < 2 ^ i := Nat.lt_of_lt_of_le hm (Nat.pow_le_pow_right (by decide) (by omega))
    simp [hi, Nat.testBit_lt_two_pow this]

end RvOs.Bits
