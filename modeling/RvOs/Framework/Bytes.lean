import RvOs.Framework.Mem

/-!
# Bytes at an offset

An array whose bytes may be loaded or not is a function from offsets. What it
holds at an offset is a list (`Holds`), which comes apart where lists do;
`be32` is a big-endian word.
-/

namespace RvOs

/-- The bytes from offset `p` on are `bs`. -/
def Holds (load : Nat → Option Byte) (p : Nat) (bs : List Byte) : Prop :=
  ∀ i, (hi : i < bs.length) → load (p + i) = some bs[i]

variable {load : Nat → Option Byte} {p n : Nat} {b : Byte} {bs cs : List Byte}

@[simp] theorem holds_nil : Holds load p [] := fun i hi => absurd hi (Nat.not_lt_zero i)

@[simp] theorem holds_cons : Holds load p (b :: bs) ↔ load p = some b ∧ Holds load (p + 1) bs := by
  refine ⟨fun h => ⟨h 0 (Nat.zero_lt_succ _), fun i hi => ?_⟩, fun ⟨hb, h⟩ i hi => ?_⟩
  · rw [Nat.add_right_comm]
    exact h (i + 1) (Nat.succ_lt_succ hi)
  · cases i with
    | zero => exact hb
    | succ i =>
      rw [← Nat.add_assoc, Nat.add_right_comm]
      exact h i (Nat.lt_of_succ_lt_succ hi)

theorem holds_append : Holds load p (bs ++ cs) ↔ Holds load p bs ∧ Holds load (p + bs.length) cs := by
  induction bs generalizing p with
  | nil => simp
  | cons b bs ih =>
    rw [List.cons_append, holds_cons, holds_cons, ih, and_assoc, List.length_cons, Nat.add_assoc p, Nat.add_comm 1]

/-- A word, most significant byte first. -/
def be32 (w : BitVec 32) : List Byte :=
  [w.extractLsb' 24 8, w.extractLsb' 16 8, w.extractLsb' 8 8, w.extractLsb' 0 8]

@[simp] theorem length_be32 (w : BitVec 32) : (be32 w).length = 4 := rfl

/-- A word is its bytes. -/
theorem append_be32 (w : BitVec 32) :
    w.extractLsb' 24 8 ++ w.extractLsb' 16 8 ++ w.extractLsb' 8 8 ++ w.extractLsb' 0 8 = w := by
  ext i hi
  simp only [BitVec.getElem_append, BitVec.getElem_extractLsb']
  repeat' split
  all_goals rw [BitVec.getLsbD_eq_getElem (by omega)]; congr 1; omega

end RvOs
