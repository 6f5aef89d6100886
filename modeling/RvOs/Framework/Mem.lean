import Mathlib.Algebra.Group.Nat.Defs
import Mathlib.Data.List.Basic
import Mathlib.Tactic.Common

/-!
# Byte memory

Memory is a function from 64-bit addresses to bytes, with little-endian
64-bit words (`read64`, `write64`) over it. Byte ranges are taken modulo
2⁶⁴ (`Sep`), so that every address is legal.
-/

namespace RvOs

abbrev Addr := BitVec 64
abbrev Byte := BitVec 8

/-- Memory: a byte at every address. -/
abbrev Mem := Addr → Byte

namespace Mem

/-- The little-endian word at `a`. -/
def read64 (m : Mem) (a : Addr) : BitVec 64 :=
  m (a + 7) ++ (m (a + 6) ++ (m (a + 5) ++ (m (a + 4) ++
    (m (a + 3) ++ (m (a + 2) ++ (m (a + 1) ++ m a))))))

/-- `v` stored at `a`, little-endian. -/
def write64 (m : Mem) (a : Addr) (v : BitVec 64) : Mem := fun x =>
  if (x - a).toNat < 8 then v.extractLsb' (8 * (x - a).toNat) 8 else m x

/-- `v` stored at `a`. -/
def write8 (m : Mem) (a : Addr) (v : Byte) : Mem := fun x => if x = a then v else m x

/-- The byte ranges `[a, a + n)` and `[b, b + k)` (modulo 2⁶⁴) do not overlap. -/
def Sep (a : Addr) (n : Nat) (b : Addr) (k : Nat) : Prop :=
  ∀ x : Addr, (x - a).toNat < n → ¬ (x - b).toNat < k

theorem Sep.symm {a b : Addr} {n k : Nat} (h : Sep a n b k) : Sep b k a n :=
  fun x hb ha => h x ha hb

theorem add_ofNat_sub (a : Addr) {i : Nat} (hi : i < 2 ^ 64) :
    (a + BitVec.ofNat 64 i - a).toNat = i := by
  rw [BitVec.add_comm, BitVec.add_sub_cancel, BitVec.toNat_ofNat, Nat.mod_eq_of_lt hi]

/-- A word read, by its bytes. -/
theorem read64_eq {m : Mem} {a : Addr} {b : Nat → Byte} (hb : ∀ i < 8, m (a + BitVec.ofNat 64 i) = b i) :
    m.read64 a = b 7 ++ (b 6 ++ (b 5 ++ (b 4 ++ (b 3 ++ (b 2 ++ (b 1 ++ b 0)))))) := by
  have h0 := hb 0 (by omega)
  rw [BitVec.add_zero] at h0
  rw [read64, h0]
  exact congr (congrArg _ (hb 7 (by omega))) (congr (congrArg _ (hb 6 (by omega)))
    (congr (congrArg _ (hb 5 (by omega))) (congr (congrArg _ (hb 4 (by omega)))
      (congr (congrArg _ (hb 3 (by omega))) (congr (congrArg _ (hb 2 (by omega)))
        (congr (congrArg _ (hb 1 (by omega))) rfl))))))

theorem read64_congr {m m' : Mem} {a : Addr}
    (h : ∀ x : Addr, (x - a).toNat < 8 → m x = m' x) : m.read64 a = m'.read64 a := by
  have hb : ∀ i < 8, m (a + BitVec.ofNat 64 i) = m' (a + BitVec.ofNat 64 i) := fun i hi =>
    h _ (by rw [add_ofNat_sub a (by omega)]; exact hi)
  exact (read64_eq hb).trans (read64_eq fun _ _ => rfl).symm

theorem write64_apply {m : Mem} {a x : Addr} {v : BitVec 64} (h : ¬ (x - a).toNat < 8) :
    m.write64 a v x = m x := by
  simp only [write64, h, ite_false]

theorem read64_write64_sep {m : Mem} {a b : Addr} {v : BitVec 64} (h : Sep a 8 b 8) :
    (m.write64 b v).read64 a = m.read64 a :=
  read64_congr fun x hx => write64_apply (h x hx)

theorem write64_byte (m : Mem) (a : Addr) (v : BitVec 64) {i : Nat} (hi : i < 8) :
    m.write64 a v (a + BitVec.ofNat 64 i) = v.extractLsb' (8 * i) 8 := by
  simp only [write64, add_ofNat_sub a (show i < 2 ^ 64 by omega), hi, ite_true]

/-- A word is the concatenation of its bytes. -/
theorem append_bytes (v : BitVec 64) :
    v.extractLsb' 56 8 ++ (v.extractLsb' 48 8 ++ (v.extractLsb' 40 8 ++ (v.extractLsb' 32 8 ++
      (v.extractLsb' 24 8 ++ (v.extractLsb' 16 8 ++ (v.extractLsb' 8 8 ++ v.extractLsb' 0 8)))))) =
      v := by
  ext i hi
  simp only [BitVec.getElem_append, BitVec.getElem_extractLsb']
  repeat' split
  all_goals rw [BitVec.getLsbD_eq_getElem (by omega)]; congr 1; omega

@[simp] theorem read64_write64_self (m : Mem) (a : Addr) (v : BitVec 64) :
    (m.write64 a v).read64 a = v := by
  have hb : ∀ i < 8, m.write64 a v (a + BitVec.ofNat 64 i) = v.extractLsb' (8 * i) 8 :=
    fun i hi => write64_byte m a v hi
  exact (read64_eq hb).trans (append_bytes v)

@[simp] theorem write8_self (m : Mem) (a : Addr) (v : Byte) : m.write8 a v a = v := by
  simp only [write8, ite_true]

theorem write8_of_ne (m : Mem) {a x : Addr} (v : Byte) (h : x ≠ a) : m.write8 a v x = m x := by
  simp only [write8, h, ite_false]

/-- Ranges `[a, a + n)` and `[b, b + k)` that do not wrap are apart when their
ends say so. -/
theorem Sep.of_le {a b : Addr} {n k : Nat} (ha : a.toNat + n ≤ 2 ^ 64) (hb : b.toNat + k ≤ 2 ^ 64)
    (h : a.toNat + n ≤ b.toNat ∨ b.toNat + k ≤ a.toNat) : Sep a n b k := by
  intro x hx hy
  have := x.isLt
  rw [BitVec.toNat_sub] at hx hy
  omega

end Mem

/-- What is asked of the bytes of a range holds of all of them, or fails first at one. -/
theorem forall_lt_or_first (P : Nat → Prop) (n : Nat) : (∀ i < n, P i) ∨ ∃ k < n, (∀ i < k, P i) ∧ ¬ P k := by
  induction n with
  | zero => exact .inl fun i hi => absurd hi (Nat.not_lt_zero i)
  | succ n ih =>
    rcases ih with ih | ⟨k, hk, h⟩
    · by_cases hn : P n
      · refine .inl fun i hi => ?_
        rcases Nat.lt_succ_iff_lt_or_eq.mp hi with hi | rfl
        · exact ih i hi
        · exact hn
      · exact .inr ⟨n, Nat.lt_succ_self n, ih, hn⟩
    · exact .inr ⟨k, Nat.lt_succ_of_lt hk, h⟩

end RvOs
