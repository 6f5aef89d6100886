import RvOs.Impl.Paging

/-!
# The kernel's address space

`paging_init`: a root table, seven ranges mapped in order with paging off, and
the switch to the new root.
-/

namespace RvOs

/-- The symbols of `kernel-s.ld` (and `kernel-m.ld`) that `paging_init` reads. -/
structure KernelSymbols where
  textStart : U64
  textEnd : U64
  rodataStart : U64
  rodataEnd : U64
  dataStart : U64
  dataEnd : U64
  bssStart : U64
  bssEnd : U64

/-- The arguments of a call of `paging_map_range_early` after the root. -/
structure MapRange where
  virtualStart : U64
  physicalStart : U64
  size : U64
  flags : U64

def MapRange.identity (start size flags : U64) : MapRange := ⟨start, start, size, flags⟩

def uartPage (platform : PlatformInfo) : U64 := platform.uartBase &&& ~~~(PAGE_SIZE - 1)
def dtbPageBase (platform : PlatformInfo) : U64 := platform.dtbAddr &&& ~~~(PAGE_SIZE - 1)
def dtbPageEnd (platform : PlatformInfo) : U64 := alignUp (platform.dtbAddr + platform.dtbSize) PAGE_SIZE

/-- The ranges `paging_init` maps, in its order. -/
def kernelRanges (sym : KernelSymbols) (platform : PlatformInfo) : List MapRange :=
  [.identity sym.textStart (sym.textEnd - sym.textStart) (PTE_R ||| PTE_X),
   .identity sym.rodataStart (sym.rodataEnd - sym.rodataStart) PTE_R,
   .identity sym.dataStart (sym.dataEnd - sym.dataStart) (PTE_R ||| PTE_W),
   .identity sym.bssStart (sym.bssEnd - sym.bssStart) (PTE_R ||| PTE_W),
   .identity (uartPage platform) PAGE_SIZE (PTE_R ||| PTE_W),
   .identity (dtbPageBase platform) (dtbPageEnd platform - dtbPageBase platform) (PTE_R ||| PTE_W),
   ⟨physToVirt platform.ramBase, platform.ramBase, platform.ramSize, PTE_R ||| PTE_W⟩]

/-- The calls of `paging_map_range_early`, up to the first that returns false. -/
def mapRangesEarly (root : Addr) : List MapRange → KState → Option (Bool × KState)
  | [], s => some (true, s)
  | r :: rs, s => do
    let (ok, s) ← pagingMapRangeEarly root r.virtualStart r.physicalStart r.size r.flags s
    if ok then mapRangesEarly root rs s else return (false, s)

def SATP_MODE_SV39 : U64 := 8

def makeSatpSv39 (rootTablePhysicalAddress : U64) : U64 :=
  (SATP_MODE_SV39 <<< 60) ||| (rootTablePhysicalAddress >>> 12)

/-- What `paging_init` writes besides memory and the allocator. -/
structure BootState extends KState where
  satp : U64
  /-- The caller's `root`. -/
  root : Addr
  gKernelRoot : Addr

def pagingInit (sym : KernelSymbols) (platform : PlatformInfo) (b : BootState) :
    Option (Bool × BootState) := do
  let (root, s) ← pagingCreateRootTable b.toKState
  if root = 0 then return (false, { b with toKState := s, root })
  let (ok, s) ← mapRangesEarly root (kernelRanges sym platform) s
  if !ok then return (false, { b with toKState := s, root })
  let rootPhys := root
  let root := physToVirt rootPhys
  return (true, { toKState := s, satp := makeSatpSv39 rootPhys, root, gKernelRoot := root })

end RvOs
