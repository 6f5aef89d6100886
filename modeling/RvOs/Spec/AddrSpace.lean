import Mathlib.Logic.Function.Basic
import RvOs.Impl.Paging

/-!
# Address spaces

What page tables are for: an address space takes each of the 2²⁷ virtual
pages of Sv39 to its leaf entry, if it is mapped. A canonical address is
determined by its page and its offset (`vpnOf_inj`).
-/

namespace RvOs

/-- A virtual page. -/
abbrev Vpn := BitVec 27

/-- An index into a table. -/
abbrev Idx := BitVec 9

/-- The page of an address. -/
def vpnOf (va : U64) : Vpn := va.extractLsb' 12 27

def Vpn.i2 (v : Vpn) : Idx := v.extractLsb' 18 9
def Vpn.i1 (v : Vpn) : Idx := v.extractLsb' 9 9
def Vpn.i0 (v : Vpn) : Idx := v.extractLsb' 0 9

/-- An address is canonical: bits 63 to 39 equal bit 38. -/
def Canonical (va : U64) : Prop := va.toNat < 2 ^ 38 ∨ 2 ^ 64 - 2 ^ 38 ≤ va.toNat

instance (va : U64) : Decidable (Canonical va) := inferInstanceAs (Decidable (_ ∨ _))

/-- Each virtual page's leaf entry. -/
abbrev AddrSpace := Vpn → Option U64

/-- The flags of a leaf `paging_map` makes. -/
def leafFlags (flags : U64) : U64 := flags ||| PTE_V ||| PTE_A ||| PTE_D

/-- The physical address of offset `off` of the page of leaf `pte`, and the flags. -/
def leafAt (pte off : U64) : U64 × U64 := (physAddrFromPte pte + off, pte &&& 0x3FF)

/-- The physical address and flags of an address. -/
def AddrSpace.translate (A : AddrSpace) (va : U64) : Option (U64 × U64) :=
  (A (vpnOf va)).map fun pte => leafAt pte (va &&& (PAGE_SIZE - 1))

theorem vpnOf_toNat (va : U64) : (vpnOf va).toNat = va.toNat / 4096 % 2 ^ 27 := by
  rw [vpnOf, BitVec.extractLsb'_toNat, Nat.shiftRight_eq_div_pow]

theorem Vpn.i2_toNat (v : Vpn) : v.i2.toNat = v.toNat / 2 ^ 18 := by
  rw [Vpn.i2, BitVec.extractLsb'_toNat, Nat.shiftRight_eq_div_pow]
  have := v.isLt; omega

theorem Vpn.i1_toNat (v : Vpn) : v.i1.toNat = v.toNat / 2 ^ 9 % 2 ^ 9 := by
  rw [Vpn.i1, BitVec.extractLsb'_toNat, Nat.shiftRight_eq_div_pow]

theorem Vpn.i0_toNat (v : Vpn) : v.i0.toNat = v.toNat % 2 ^ 9 := by
  rw [Vpn.i0, BitVec.extractLsb'_toNat, Nat.shiftRight_eq_div_pow, Nat.pow_zero, Nat.div_one]

/-- A page is determined by its three indices. -/
theorem Vpn.ext_idx {v w : Vpn} (h2 : v.i2 = w.i2) (h1 : v.i1 = w.i1) (h0 : v.i0 = w.i0) : v = w := by
  have h2 := congrArg BitVec.toNat h2
  have h1 := congrArg BitVec.toNat h1
  have h0 := congrArg BitVec.toNat h0
  rw [i2_toNat, i2_toNat] at h2
  rw [i1_toNat, i1_toNat] at h1
  rw [i0_toNat, i0_toNat] at h0
  exact BitVec.eq_of_toNat_eq (by omega)

/-- Canonical addresses of one page differ only in their offset. -/
theorem vpnOf_inj {va va' : U64} (h : Canonical va) (h' : Canonical va') (hv : vpnOf va = vpnOf va') :
    va.toNat / 4096 = va'.toNat / 4096 := by
  have hv := congrArg BitVec.toNat hv
  rw [vpnOf_toNat, vpnOf_toNat] at hv
  have := va.isLt; have := va'.isLt
  unfold Canonical at h h'
  omega

end RvOs
