import RvOs.Framework.Move
import RvOs.Spec.Memory

/-!
# Overlapping moves

Both loops copy bytes one after the other, in an order in which none is
overwritten before it is copied, so that `memmove` moves bytes between any two
ranges (`memmove_moves`). The loop of `memcpy` is one of the two.
-/

namespace RvOs

variable {dest src n : U64} {m : Mem}

/-! ## The loops -/

theorem copyUp_eq (dest src : Addr) (n : Nat) (m : Mem) :
    copyUp dest src n m = Mem.moveAll dest src (List.range n) m := by
  induction n with
  | zero => rfl
  | succ n ih =>
    rw [copyUp, ih, List.range_succ, Mem.moveAll_append]
    rfl

theorem copyDown_eq (dest src : Addr) (n : Nat) (m : Mem) :
    copyDown dest src n m = Mem.moveAll dest src (List.range n).reverse m := by
  induction n generalizing m with
  | zero => rfl
  | succ n ih =>
    rw [copyDown, ih, List.range_succ, List.reverse_concat, Mem.moveAll_cons]
    rfl

section

variable (hd : dest.toNat + n.toNat ≤ 2 ^ 64) (hs : src.toNat + n.toNat ≤ 2 ^ 64)

include hd hs

theorem copyUp_moved (h : dest.toNat ≤ src.toNat ∨ src.toNat + n.toNat ≤ dest.toNat) :
    copyUp dest src n.toNat m = Mem.moved dest src (List.range n.toNat) m := by
  rw [copyUp_eq, Mem.moveAll_eq (Mem.moves_up hd hs h)]

theorem copyDown_moved (h : src.toNat ≤ dest.toNat) :
    copyDown dest src n.toNat m = Mem.moved dest src (List.range n.toNat) m := by
  rw [copyDown_eq, Mem.moveAll_eq (Mem.moves_down hd hs h), Mem.moved_reverse]

theorem memmove_eq : memmove dest src n m = (dest, Mem.moved dest src (List.range n.toNat) m) := by
  rw [memmove]
  by_cases h : dest < src
  · rw [if_pos h, copyUp_moved hd hs (.inl (Nat.le_of_lt h))]
  · rw [if_neg h, copyDown_moved hd hs (Nat.le_of_not_lt h)]

theorem memcpy_eq (h : dest ≤ src ∨ RangesDisjoint dest src n) :
    memcpy dest src n m = (dest, Mem.moved dest src (List.range n.toNat) m) := by
  rw [memcpy, copyUp_moved hd hs]
  rcases h with h | h | h
  · exact .inl h
  · exact .inl (Nat.le_of_add_right_le h)
  · exact .inr h

/-- `memmove` moves the bytes, and so does `memcpy` to a lower address or a disjoint range. -/
theorem memmove_moves (m : Mem) : Moves dest src n m (memmove dest src n m) ∧
    (dest ≤ src ∨ RangesDisjoint dest src n → memcpy dest src n m = memmove dest src n m) := by
  rw [memmove_eq hd hs]
  refine ⟨⟨rfl, fun i hi => Mem.moved_dest hi n.isLt.le, fun a ha => Mem.moved_other ?_⟩, memcpy_eq hd hs⟩
  intro hlt
  rw [BitVec.toNat_sub] at hlt
  have := a.isLt
  omega

end

/-- Four bytes moved down by two. -/
theorem memmove_moves_overlap :
    Moves 0x80000000 0x80000002 4 (fun a => a.setWidth 8) (memmove 0x80000000 0x80000002 4 fun a => a.setWidth 8) ∧
      memcpy 0x80000000 0x80000002 4 (fun a => a.setWidth 8) =
        memmove 0x80000000 0x80000002 4 fun a => a.setWidth 8 := by
  obtain ⟨hmove, hcopy⟩ := (memmove_moves (by decide) (by decide) fun a => a.setWidth 8 :
    Moves 0x80000000 0x80000002 4 (fun a => a.setWidth 8) _ ∧ _)
  exact ⟨hmove, hcopy (.inl (by decide))⟩

end RvOs
