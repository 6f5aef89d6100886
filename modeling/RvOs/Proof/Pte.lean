import RvOs.Spec.AddrSpace
import RvOs.Spec.Frames

/-!
# Entries and indices as arithmetic

The index fields of an address (`sv39Vpn2_eq`, ...), rounding
(`toNat_alignUp`), and the fields of an entry: the flag bits of
`pteFromPhysAddr` are read back by the flag tests (`pte_and_flags`), and a
frame below 2⁵⁶ by `physAddrFromPte` (`physAddrFromPte_pte`).
-/

namespace RvOs

open Bits

theorem toNat_pageOffset (x : U64) : (x &&& (PAGE_SIZE - 1)).toNat = x.toNat % 4096 :=
  toNat_and_low x (k := 12) (by decide)

theorem toNat_pageOffset_lt (x : U64) : (x &&& (PAGE_SIZE - 1)).toNat < 4096 := by
  rw [toNat_pageOffset]; omega

theorem aligned_iff (x : U64) : x &&& (PAGE_SIZE - 1) = 0 ↔ Aligned x := by
  rw [← BitVec.toNat_inj, toNat_pageOffset]; rfl

theorem toNat_alignUp {x : U64} (h : x.toNat + 4095 < 2 ^ 64) :
    (alignUp x PAGE_SIZE).toNat = (x.toNat + 4095) / 4096 * 4096 := by
  rw [alignUp, toNat_and_not_low _ (k := 12) (by decide),
    show x + PAGE_SIZE - 1 = x + 4095 by rw [PAGE_SIZE]; bv_omega, BitVec.toNat_add,
    show (4095 : U64).toNat = 4095 from rfl, Nat.mod_eq_of_lt h]
  omega

/-- No pages for a size of zero. -/
theorem pages_zero {n : Nat} (h : (alignUp 0 PAGE_SIZE).toNat = 4096 * n) : n = 0 := by
  have h0 : (alignUp 0 PAGE_SIZE).toNat = 0 := by decide
  omega

theorem toNat_pageDown (x : U64) : (x &&& ~~~(PAGE_SIZE - 1)).toNat = x.toNat / 4096 * 4096 := by
  rw [toNat_and_not_low _ (k := 12) (by decide)]
  omega

section Idx

variable (va : U64)

theorem sv39Vpn2_eq : sv39Vpn2 va = (vpnOf va).i2.setWidth 64 := by
  apply BitVec.eq_of_toNat_eq
  rw [sv39Vpn2, toNat_field va (k := 9) (by decide), BitVec.toNat_setWidth, Vpn.i2_toNat, vpnOf_toNat]
  have := va.isLt; omega

theorem sv39Vpn1_eq : sv39Vpn1 va = (vpnOf va).i1.setWidth 64 := by
  apply BitVec.eq_of_toNat_eq
  rw [sv39Vpn1, toNat_field va (k := 9) (by decide), BitVec.toNat_setWidth, Vpn.i1_toNat, vpnOf_toNat]
  omega

theorem sv39Vpn0_eq : sv39Vpn0 va = (vpnOf va).i0.setWidth 64 := by
  apply BitVec.eq_of_toNat_eq
  rw [sv39Vpn0, toNat_field va (k := 9) (by decide), BitVec.toNat_setWidth, Vpn.i0_toNat, vpnOf_toNat]
  omega

end Idx

/-! ## Entries -/

section Pte

variable {pa flags : U64} (hf : flags.toNat < 2 ^ 10)

include hf

theorem toNat_pte : (pteFromPhysAddr pa flags).toNat = pa.toNat / 4096 * 2 ^ 10 + flags.toNat := by
  rw [pteFromPhysAddr, toNat_shiftLeft_or _ (by
    have := pa.isLt
    rw [BitVec.toNat_ushiftRight, Nat.shiftRight_eq_div_pow]; omega) hf,
    BitVec.toNat_ushiftRight, Nat.shiftRight_eq_div_pow]

/-- The flag bits of an entry. -/
theorem pte_and_flags {mask : U64} (hm : mask.toNat < 2 ^ 10) :
    pteFromPhysAddr pa flags &&& mask = flags &&& mask :=
  and_eq_of_low _ (k := 10) (by rw [toNat_pte hf]; omega) hm

theorem pte_flags : pteFromPhysAddr pa flags &&& 0x3FF = flags := by
  rw [pte_and_flags hf (by decide)]
  apply BitVec.eq_of_toNat_eq
  rw [toNat_and_low _ (k := 10) (by decide), Nat.mod_eq_of_lt hf]

theorem pteIsValid_pte : pteIsValid (pteFromPhysAddr pa flags) = pteIsValid flags := by
  rw [pteIsValid, pteIsValid, pte_and_flags hf (by decide)]

theorem pteIsLeaf_pte : pteIsLeaf (pteFromPhysAddr pa flags) = pteIsLeaf flags := by
  rw [pteIsLeaf, pteIsLeaf, pte_and_flags hf (by decide)]

theorem physAddrFromPte_pte (ha : Aligned pa) (hpa : pa.toNat < 2 ^ 56) :
    physAddrFromPte (pteFromPhysAddr pa flags) = pa := by
  apply BitVec.eq_of_toNat_eq
  have hp : (pteFromPhysAddr pa flags).toNat = _ := toNat_pte hf
  have : pa.toNat % 4096 = 0 := ha
  rw [physAddrFromPte, BitVec.toNat_shiftLeft, toNat_field _ (k := 44) (by decide), hp,
    Nat.shiftLeft_eq]
  omega

end Pte

/-- An entry points at a frame below 2⁵⁶. -/
theorem physAddrFromPte_bits (e : U64) : (physAddrFromPte e).toNat < 2 ^ 56 ∧ Aligned (physAddrFromPte e) := by
  have h := Bits.toNat_field e (n := 10) (k := 44) (m := 0xFFFFFFFFFFF) (by decide)
  unfold Aligned
  rw [physAddrFromPte, BitVec.toNat_shiftLeft, h, Nat.shiftLeft_eq]
  omega

theorem leafFlags_lt {flags : U64} (hf : flags.toNat < 2 ^ 10) : (leafFlags flags).toNat < 2 ^ 10 := by
  simp only [leafFlags, BitVec.toNat_or]
  exact Nat.or_lt_two_pow (Nat.or_lt_two_pow (Nat.or_lt_two_pow hf (by decide)) (by decide)) (by decide)

theorem pteIsValid_leafFlags (flags : U64) : pteIsValid (leafFlags flags) = true := by
  rw [pteIsValid, bne_iff_ne, leafFlags]
  intro h
  have := congrArg (·.getLsbD 0) h
  simp [PTE_V] at this

theorem pteIsLeaf_leafFlags {flags : U64} (h : pteIsLeaf flags = true) : pteIsLeaf (leafFlags flags) = true := by
  rw [pteIsLeaf, bne_iff_ne] at h ⊢
  intro h'
  refine h (BitVec.eq_of_getLsbD_eq fun i hi => ?_)
  have := congrArg (·.getLsbD i) h'
  simp only [leafFlags, BitVec.getLsbD_and, BitVec.getLsbD_or] at this ⊢
  cases hb : flags.getLsbD i with
  | false => simp
  | true => rw [hb] at this; simpa using this

end RvOs
