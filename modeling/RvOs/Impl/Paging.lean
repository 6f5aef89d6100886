import RvOs.Framework.View
import RvOs.Impl.Allocator

/-!
# Page tables

`Paging.cpp` and `AddressMapping.hpp`. The source has every function twice:
an early one, whose table pointers are physical addresses
(`phys_to_ptr_early`), and a late one, whose table pointers are in the direct
map (`phys_to_virt_ptr`). Here each is one definition over the view `V` that
table accesses go through and the conversion `toPtr` of physical addresses to
pointers. `none` is an access that faults; a call that returns leaves memory
and allocator in a `KState`, whatever it returns.
-/

namespace RvOs

def KERNEL_DIRECT_MAP_BASE : U64 := 0xFFFFFFC000000000

def physToVirt (physicalAddress : U64) : Addr := physicalAddress + KERNEL_DIRECT_MAP_BASE
def virtToPhys (virtualAddress : Addr) : U64 := virtualAddress - KERNEL_DIRECT_MAP_BASE

/-- `phys_to_ptr_early`: the physical address itself. -/
def physToPtrEarly (physicalAddress : U64) : Addr := physicalAddress

/-- Physical memory, as code sees it before paging is on. -/
def View.phys : View := .offset 0

/-- Physical memory seen through `phys_to_virt`. -/
def View.direct : View := .offset KERNEL_DIRECT_MAP_BASE

def PAGE_TABLE_ENTRIES : Nat := 512

def PTE_V : U64 := 1 <<< 0
def PTE_R : U64 := 1 <<< 1
def PTE_W : U64 := 1 <<< 2
def PTE_X : U64 := 1 <<< 3
def PTE_U : U64 := 1 <<< 4
def PTE_A : U64 := 1 <<< 6
def PTE_D : U64 := 1 <<< 7

def sv39Vpn2 (virtualAddress : U64) : U64 := (virtualAddress >>> 30) &&& 0x1FF
def sv39Vpn1 (virtualAddress : U64) : U64 := (virtualAddress >>> 21) &&& 0x1FF
def sv39Vpn0 (virtualAddress : U64) : U64 := (virtualAddress >>> 12) &&& 0x1FF

def pteFromPhysAddr (physicalAddress flags : U64) : U64 :=
  let ppn := physicalAddress >>> 12
  (ppn <<< 10) ||| flags

def physAddrFromPte (pte : U64) : U64 :=
  let ppn := (pte >>> 10) &&& 0xFFFFFFFFFFF
  ppn <<< 12

def pteIsValid (pte : U64) : Bool := (pte &&& PTE_V) != 0
def pteIsLeaf (pte : U64) : Bool := (pte &&& (PTE_R ||| PTE_W ||| PTE_X)) != 0

/-- `&table->entries[index]`. -/
def entryPtr (table : Addr) (index : U64) : Addr := table + index * 8

/-- Memory and the allocator, which the paging functions take by reference. -/
structure KState where
  mem : Mem
  allocator : PhysicalPageAllocator

variable (V : View) (toPtr : U64 → Addr)

/-- The first `n` iterations of `paging_zero_table`. -/
def zeroEntries (table : Addr) (m : Mem) : Nat → Option Mem
  | 0 => some m
  | n + 1 => do V.store64 (← zeroEntries table m n) (entryPtr table (BitVec.ofNat 64 n)) 0

def pagingZeroTable (table : Addr) (m : Mem) : Option Mem := zeroEntries V table m PAGE_TABLE_ENTRIES

/-- The root's pointer, 0 for `nullptr`. -/
def pagingCreateRootTableVia (s : KState) : Option (Addr × KState) :=
  let (rootPhys, allocator) := physicalAllocPage s.allocator
  if rootPhys = 0 then some (0, { s with allocator })
  else do
    let root := toPtr rootPhys
    let mem ← pagingZeroTable V root s.mem
    return (root, { mem, allocator })

/-- The two blocks of `paging_map` that find the next table below `entry`,
allocating and linking one if there is none: `none` where `paging_map`
returns false. -/
def nextTable (entry : Addr) (s : KState) : Option (Option Addr × KState) := do
  let pte ← V.load64 s.mem entry
  if !pteIsValid pte then
    let (newPagePhys, allocator) := physicalAllocPage s.allocator
    if newPagePhys = 0 then return (none, { s with allocator })
    let table := toPtr newPagePhys
    let mem ← pagingZeroTable V table s.mem
    let mem ← V.store64 mem entry (pteFromPhysAddr newPagePhys PTE_V)
    return (some table, { mem, allocator })
  else if pteIsLeaf pte then return (none, s)
  else return (some (toPtr (physAddrFromPte pte)), s)

/-- The end of `paging_map`: the leaf entry, if it is free. -/
def setLeaf (entry : Addr) (physicalAddress flags : U64) (s : KState) : Option (Bool × KState) := do
  let pte ← V.load64 s.mem entry
  if pteIsValid pte then return (false, s)
  let mem ← V.store64 s.mem entry (pteFromPhysAddr physicalAddress (flags ||| PTE_V ||| PTE_A ||| PTE_D))
  return (true, { s with mem })

/-- `paging_map` from the level-1 table on. -/
def mapFromLevel1 (level1 : Addr) (virtualAddress physicalAddress flags : U64) (s : KState) :
    Option (Bool × KState) := do
  match ← nextTable V toPtr (entryPtr level1 (sv39Vpn1 virtualAddress)) s with
  | (none, s) => return (false, s)
  | (some level0, s) => setLeaf V (entryPtr level0 (sv39Vpn0 virtualAddress)) physicalAddress flags s

def pagingMapVia (root : Addr) (virtualAddress physicalAddress flags : U64) (s : KState) :
    Option (Bool × KState) :=
  if root = 0 then some (false, s)
  else if virtualAddress &&& (PAGE_SIZE - 1) ≠ 0 then some (false, s)
  else if physicalAddress &&& (PAGE_SIZE - 1) ≠ 0 then some (false, s)
  else do
    match ← nextTable V toPtr (entryPtr root (sv39Vpn2 virtualAddress)) s with
    | (none, s) => return (false, s)
    | (some level1, s) => mapFromLevel1 V toPtr level1 virtualAddress physicalAddress flags s

/-- The tables below a table in a query: `none` where `paging_query` returns false. -/
def queryTable (entry : Addr) (m : Mem) : Option (Option Addr) := do
  let pte ← V.load64 m entry
  if !pteIsValid pte || pteIsLeaf pte then return none
  return some (toPtr (physAddrFromPte pte))

/-- The physical address and flags `paging_query` returns, `none` if it
returns false. -/
def pagingQueryVia (root : Addr) (va : U64) (m : Mem) : Option (Option (U64 × U64)) :=
  if root = 0 then some none
  else do
    let pageOffset := va &&& (PAGE_SIZE - 1)
    match ← queryTable V toPtr (entryPtr root (sv39Vpn2 va)) m with
    | none => return none
    | some level1 =>
      match ← queryTable V toPtr (entryPtr level1 (sv39Vpn1 va)) m with
      | none => return none
      | some level0 =>
        let pte ← V.load64 m (entryPtr level0 (sv39Vpn0 va))
        if !pteIsValid pte || !pteIsLeaf pte then return none
        return some (physAddrFromPte pte + pageOffset, pte &&& 0x3FF)

/-- The loops over the pages of a range, `offset` in steps of `PAGE_SIZE`:
`page` is the loop body, false where the function returns false. A 64-bit
`offset` takes at most 2⁵² values, which `pageLoopFuel` iterations exceed. -/
def pageLoop (page : U64 → KState → Option (Bool × KState)) (size : U64) :
    Nat → U64 → KState → Option (Bool × KState)
  | 0, _, _ => none
  | fuel + 1, offset, s =>
    if offset < size then do
      let (ok, s) ← page offset s
      if ok then pageLoop page size fuel (offset + PAGE_SIZE) s else return (false, s)
    else some (true, s)

def pageLoopFuel : Nat := 2 ^ 52 + 1

def pagingMapRangeVia (root : Addr) (virtualStart physicalStart size flags : U64) (s : KState) :
    Option (Bool × KState) :=
  if size = 0 then some (true, s)
  else
    let pageAlignedSize := alignUp size PAGE_SIZE
    pageLoop (fun mapped => pagingMapVia V toPtr root (virtualStart + mapped) (physicalStart + mapped) flags)
      pageAlignedSize pageLoopFuel 0 s

/-! ## The functions of the source -/

def pagingCreateRootTable := pagingCreateRootTableVia .phys physToPtrEarly

def pagingMapEarly := pagingMapVia .phys physToPtrEarly
def pagingMapRangeEarly := pagingMapRangeVia .phys physToPtrEarly
def pagingQueryEarly := pagingQueryVia .phys physToPtrEarly

def pagingMap (V : View) := pagingMapVia V physToVirt
def pagingMapRange (V : View) := pagingMapRangeVia V physToVirt
def pagingQuery (V : View) := pagingQueryVia V physToVirt

end RvOs
