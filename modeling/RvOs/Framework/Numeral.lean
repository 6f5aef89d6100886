import Mathlib.Data.Nat.Digits.Defs

/-!
# Numerals

The number that a list of digits stands for, the first digit the highest
(`numeral`), and the last `n` digits of a number (`lastDigits`).
-/

namespace RvOs

/-- The number with the digits `ds` in base `b`. -/
def numeral (b : Nat) (ds : List Nat) : Nat := Nat.ofDigits b ds.reverse

theorem numeral_concat (b : Nat) (ds : List Nat) (d : Nat) : numeral b (ds ++ [d]) = numeral b ds * b + d := by
  rw [numeral, List.reverse_concat, Nat.ofDigits_cons, numeral, Nat.mul_comm, Nat.add_comm]

theorem numeral_cons (b d : Nat) (ds : List Nat) : numeral b (d :: ds) = d * b ^ ds.length + numeral b ds := by
  rw [numeral, List.reverse_cons, Nat.ofDigits_append, Nat.ofDigits_singleton, List.length_reverse, numeral,
    Nat.mul_comm, Nat.add_comm]

/-- The last `n` digits of `v`. -/
def lastDigits (b v : Nat) : Nat → List Nat
  | 0 => []
  | n + 1 => v / b ^ n % b :: lastDigits b v n

@[simp] theorem length_lastDigits (b v n : Nat) : (lastDigits b v n).length = n := by
  induction n with
  | zero => rfl
  | succ n ih => rw [lastDigits, List.length_cons, ih]

theorem lastDigits_lt {b : Nat} (hb : 0 < b) (v n : Nat) : ∀ d ∈ lastDigits b v n, d < b := by
  induction n with
  | zero => simp [lastDigits]
  | succ n ih => exact List.forall_mem_cons.mpr ⟨Nat.mod_lt _ hb, ih⟩

/-- They are the number modulo a power of the base. -/
theorem numeral_lastDigits (b v n : Nat) : numeral b (lastDigits b v n) = v % b ^ n := by
  induction n with
  | zero => simp [lastDigits, numeral, Nat.mod_one]
  | succ n ih => rw [lastDigits, numeral_cons, length_lastDigits, ih, Nat.mod_pow_succ, Nat.mul_comm, Nat.add_comm]

end RvOs
