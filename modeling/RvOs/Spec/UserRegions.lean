import RvOs.Impl.PagingInit
import RvOs.Spec.AddrSpace
import RvOs.Spec.Frames
import RvOs.Spec.UserLayout

/-!
# User regions beside the kernel's mappings

The regions of a layout are to be mapped below the kernel's root, whose lower
half has the identity mappings too (`RegionsMappable`). `RegionsClear` is when
they are in no page that `paging_init` maps; the tables tell addresses apart
modulo 2³⁹ only.
-/

namespace RvOs

/-- The roundings and sums of the sizes, and the start of the stack, do not wrap. -/
def LayoutSizes.NoWrap (z : LayoutSizes) : Prop := z.low < 2 ^ 64 ∧ z.stackSize ≤ USER_STACK_TOP.toNat

/-- The regions of a layout that have memory at the start of a program. -/
def userRegions (l : ProcessMemoryLayout) : List MemoryRegion := [l.text, l.rodata, l.data, l.bss, l.stack]

/-- How many pages the regions have. -/
def regionPages (rs : List MemoryRegion) : Nat := (rs.map fun r => r.size.toNat / 4096).sum

/-- The regions are not mapped below `root` in `s`, and can be: a page takes one
frame, and at most two for its tables. -/
structure RegionsMappable (root : Addr) (rs : List MemoryRegion) (s : KState) : Prop where
  unmapped : ∀ r ∈ rs, ∀ off < r.size, pagingQuery .direct root (r.start + off) s.mem = some none
  succeeds : supplies (3 * regionPages rs) s.allocator → ∃ s', mapRegions .direct root rs s = some (true, s')

/-- A page of the ranges of `paging_init`. -/
def KernelPage (sym : KernelSymbols) (platform : PlatformInfo) (v : Vpn) : Prop :=
  ∃ r ∈ kernelRanges sym platform, ∃ off < alignUp r.size PAGE_SIZE, v = vpnOf (r.virtualStart + off)

/-- No address of the regions is in one. -/
def RegionsClear (sym : KernelSymbols) (platform : PlatformInfo) (rs : List MemoryRegion) : Prop :=
  ∀ r ∈ rs, ∀ off < r.size, ¬ KernelPage sym platform (vpnOf (r.start + off))

end RvOs
