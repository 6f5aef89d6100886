import RvOs.Framework.Mem

/-!
# Moving bytes

Bytes copied one after the other within one memory. In any order in which no
byte is overwritten before it is copied, the destination gets what the source
held (`moveAll_eq`). Indices going up do for a destination below the source
(`moves_up`), indices going down for one above it (`moves_down`).
-/

namespace RvOs.Mem

/-- The byte at index `i` of `s` copied to that of `d`. -/
def moveByte (d s : Addr) (m : Mem) (i : Nat) : Mem :=
  m.write8 (d + BitVec.ofNat 64 i) (m (s + BitVec.ofNat 64 i))

/-- The bytes at the indices `is` copied in this order. -/
def moveAll (d s : Addr) (is : List Nat) (m : Mem) : Mem := is.foldl (moveByte d s) m

/-- `m` with the bytes that it holds at indices `is` of `s` at those of `d`. -/
def moved (d s : Addr) (is : List Nat) (m : Mem) : Mem := fun a =>
  if (a - d).toNat ∈ is then m (s + (a - d)) else m a

variable {m : Mem} {d s : Addr} {is js : List Nat} {n : Nat}

theorem moveAll_append (m : Mem) : moveAll d s (is ++ js) m = moveAll d s js (moveAll d s is m) :=
  List.foldl_append ..

theorem moveAll_cons (i : Nat) (m : Mem) : moveAll d s (i :: is) m = moveAll d s is (moveByte d s m i) := rfl

/-- An address as an index. -/
theorem add_sub_self (d a : Addr) : d + BitVec.ofNat 64 (a - d).toNat = a := by
  rw [BitVec.ofNat_toNat, BitVec.setWidth_eq, BitVec.add_comm, BitVec.sub_add_cancel]

/-- Different indices, and no byte of the source overwritten by an earlier one. -/
structure Order (d s : Addr) (is : List Nat) : Prop where
  lt : ∀ i ∈ is, i < 2 ^ 64
  nodup : is.Nodup
  unread : is.Pairwise fun i j => d + BitVec.ofNat 64 i ≠ s + BitVec.ofNat 64 j

/-- A move in such an order. -/
theorem moveAll_eq (h : Order d s is) (m : Mem) : moveAll d s is m = moved d s is m := by
  induction is generalizing m with
  | nil => rfl
  | cons i is ih =>
    obtain ⟨hi, hlt⟩ := List.forall_mem_cons.mp h.lt
    obtain ⟨hni, hnd⟩ := List.nodup_cons.mp h.nodup
    obtain ⟨hui, hu⟩ := List.pairwise_cons.mp h.unread
    rw [moveAll_cons, ih ⟨hlt, hnd, hu⟩]
    funext a
    simp only [moved, List.mem_cons]
    by_cases ha : (a - d).toNat ∈ is
    · rw [if_pos ha, if_pos (.inr ha)]
      refine write8_of_ne _ _ fun e => hui _ ha ?_
      rw [← e, BitVec.ofNat_toNat, BitVec.setWidth_eq]
    · rw [if_neg ha]
      by_cases hai : (a - d).toNat = i
      · rw [if_pos (.inl hai), moveByte, ← hai, add_sub_self, write8_self, BitVec.ofNat_toNat, BitVec.setWidth_eq]
      · rw [if_neg (not_or.mpr ⟨hai, ha⟩)]
        refine write8_of_ne _ _ fun e => hai ?_
        rw [e, add_ofNat_sub d hi]

/-! ## Orders -/

theorem pairwise_range {R : Nat → Nat → Prop} (h : ∀ i j, i < j → j < n → R i j) : (List.range n).Pairwise R :=
  List.pairwise_lt_range.imp_of_mem fun _ hj hij => h _ _ hij (List.mem_range.mp hj)

section

variable (hd : d.toNat + n ≤ 2 ^ 64) (hs : s.toNat + n ≤ 2 ^ 64)

include hd hs

/-- Bytes at indices of ranges that do not wrap. -/
theorem add_ofNat_ne {i j : Nat} (hi : i < n) (hj : j < n) (h : d.toNat + i ≠ s.toNat + j) :
    d + BitVec.ofNat 64 i ≠ s + BitVec.ofNat 64 j := by
  intro e
  have e := congrArg BitVec.toNat e
  rw [BitVec.toNat_add, BitVec.toNat_add, BitVec.toNat_ofNat, BitVec.toNat_ofNat] at e
  omega

theorem moves_up (h : d.toNat ≤ s.toNat ∨ s.toNat + n ≤ d.toNat) : Order d s (List.range n) := by
  refine ⟨fun i hi => ?_, List.nodup_range, ?_⟩
  · have := List.mem_range.mp hi
    omega
  · exact pairwise_range fun i j hij hj => add_ofNat_ne hd hs (by omega) hj (by omega)

theorem moves_down (h : s.toNat ≤ d.toNat) : Order d s (List.range n).reverse := by
  refine ⟨fun i hi => ?_, List.pairwise_reverse.mpr (List.nodup_range.imp Ne.symm), List.pairwise_reverse.mpr ?_⟩
  · have := List.mem_range.mp (List.mem_reverse.mp hi)
    omega
  · exact pairwise_range fun i j hij hj => add_ofNat_ne hd hs hj (by omega) (by omega)

end

theorem moved_reverse : moved d s is.reverse m = moved d s is m := by
  funext a
  simp only [moved, List.mem_reverse]

/-- A byte of the destination, -/
theorem moved_dest {i : Nat} (hi : i < n) (hn : n ≤ 2 ^ 64) :
    moved d s (List.range n) m (d + BitVec.ofNat 64 i) = m (s + BitVec.ofNat 64 i) := by
  have hi' := add_ofNat_sub d (show i < 2 ^ 64 by omega)
  rw [moved, if_pos (List.mem_range.mpr (by rwa [hi'])), BitVec.add_comm d, BitVec.add_sub_cancel]

/-- and one outside. -/
theorem moved_other {a : Addr} (h : ¬ (a - d).toNat < n) : moved d s (List.range n) m a = m a := by
  rw [moved, if_neg (mt List.mem_range.mp h)]

end RvOs.Mem
