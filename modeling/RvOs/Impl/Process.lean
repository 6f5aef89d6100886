import RvOs.Impl.Paging

/-!
# The program loader

`ProcessMemory.cpp` and `ProcessLoader.cpp`. Page tables and user frames are
accessed through `phys_to_virt` pointers, in the view `V`; the image is
read at its own symbols, in the view `S`.
-/

namespace RvOs

def USER_TEXT_START : U64 := 0x400000
def USER_STACK_TOP : U64 := 0x3FFFFFF000
def USER_STACK_SIZE : U64 := 4096

def alignDown (value alignment : U64) : U64 := value &&& ~~~(alignment - 1)

structure MemoryRegion where
  start : U64
  size : U64
  flags : U64

structure ProcessMemoryLayout where
  text : MemoryRegion
  rodata : MemoryRegion
  data : MemoryRegion
  bss : MemoryRegion
  heap : MemoryRegion
  stack : MemoryRegion
  heapBreak : U64
  stackTop : U64
  entry : U64

/-- The layout, `none` where `process_memory_layout_init` returns false. -/
def processMemoryLayoutInit (textSize rodataSize dataSize bssSize stackSize : U64) : Option ProcessMemoryLayout :=
  let textSize := alignUp textSize PAGE_SIZE
  let rodataSize := alignUp rodataSize PAGE_SIZE
  let dataSize := alignUp dataSize PAGE_SIZE
  let bssSize := alignUp bssSize PAGE_SIZE
  let stackSize := alignUp stackSize PAGE_SIZE
  let stackSize := if stackSize = 0 then PAGE_SIZE else stackSize
  let textStart := USER_TEXT_START
  let rodataStart := textStart + textSize
  let dataStart := rodataStart + rodataSize
  let bssStart := dataStart + dataSize
  let heapStart := bssStart + bssSize
  let stackTop := alignDown USER_STACK_TOP PAGE_SIZE
  let stackStart := stackTop - stackSize
  if stackStart ≤ heapStart then none
  else some
    { text := ⟨textStart, textSize, PTE_R ||| PTE_X ||| PTE_U⟩
      rodata := ⟨rodataStart, rodataSize, PTE_R ||| PTE_U⟩
      data := ⟨dataStart, dataSize, PTE_R ||| PTE_W ||| PTE_U⟩
      bss := ⟨bssStart, bssSize, PTE_R ||| PTE_W ||| PTE_U⟩
      heap := ⟨heapStart, 0, PTE_R ||| PTE_W ||| PTE_U⟩
      stack := ⟨stackStart, stackSize, PTE_R ||| PTE_W ||| PTE_U⟩
      heapBreak := heapStart
      stackTop := stackTop
      entry := textStart }

/-- The sizes `process_memory_layout_init` is called with. -/
structure LayoutSizes where
  text : U64
  rodata : U64
  data : U64
  bss : U64
  stack : U64

/-- The call on the caller's layout: what it returns, and the layout after it. -/
def processMemoryLayoutInitAt (layout : ProcessMemoryLayout) (z : LayoutSizes) : Bool × ProcessMemoryLayout :=
  let written := processMemoryLayoutInit z.text z.rodata z.data z.bss z.stack
  (written.isSome, written.getD layout)

variable (V S : View)

/-- The first `n` iterations of the loop of `map_region` that zeroes a page. -/
def zeroBytes (pageBytes : Addr) (m : Mem) : Nat → Option Mem
  | 0 => some m
  | n + 1 => do V.store8 (← zeroBytes pageBytes m n) (pageBytes + BitVec.ofNat 64 n) 0

/-- The loop body of `map_region`: a zeroed frame, mapped at `offset`. -/
def mapRegionPage (root : Addr) (region : MemoryRegion) (offset : U64) (s : KState) : Option (Bool × KState) :=
  let (physicalPage, allocator) := physicalAllocPage s.allocator
  if physicalPage = 0 then some (false, { s with allocator })
  else do
    let mem ← zeroBytes V (physToVirt physicalPage) s.mem PAGE_SIZE.toNat
    pagingMap V root (region.start + offset) physicalPage region.flags { mem, allocator }

def mapRegion (root : Addr) (region : MemoryRegion) (s : KState) : Option (Bool × KState) :=
  if root = 0 then some (false, s)
  else if region.start &&& (PAGE_SIZE - 1) ≠ 0 then some (false, s)
  else if region.size &&& (PAGE_SIZE - 1) ≠ 0 then some (false, s)
  else pageLoop (mapRegionPage V root region) region.size pageLoopFuel 0 s

/-- The first `n` iterations of `copy_into_region`. -/
def copyBytes (root : Addr) (virtualAddress : U64) (source : Addr) (m : Mem) : Nat → Option (Bool × Mem)
  | 0 => some (true, m)
  | n + 1 => do
    let (ok, m) ← copyBytes root virtualAddress source m n
    if !ok then return (false, m)
    match ← pagingQuery V root (virtualAddress + BitVec.ofNat 64 n) m with
    | none => return (false, m)
    | some (physicalAddress, _) =>
      let byte ← S.load8 m (source + BitVec.ofNat 64 n)
      let m ← V.store8 m (physToVirt physicalAddress) byte
      return (true, m)

def copyIntoRegion (root : Addr) (virtualAddress : U64) (source : Addr) (size : U64) (m : Mem) :
    Option (Bool × Mem) :=
  if root = 0 ∧ size ≠ 0 then some (false, m)
  else copyBytes V S root virtualAddress source m size.toNat

structure LoadedUserProgram where
  entry : U64
  stackTop : U64
  deriving DecidableEq

/-- The regions `process_load_initial_user_program` maps, in its order. -/
def loadRegions (layout : ProcessMemoryLayout) : List MemoryRegion := [layout.text, layout.bss, layout.stack]

/-- The calls of `map_region`, up to the first that returns false. -/
def mapRegions (root : Addr) : List MemoryRegion → KState → Option (Bool × KState)
  | [], s => some (true, s)
  | r :: rs, s => do
    let (ok, s) ← mapRegion V root r s
    if ok then mapRegions root rs s else return (false, s)

/-- The loaded program, `none` where the loader returns false; `imageStart` and
`imageEnd` are the symbols of the embedded image. -/
def processLoadInitialUserProgram (root imageStart imageEnd : Addr) (s : KState) :
    Option (Option LoadedUserProgram × KState) :=
  if root = 0 then some (none, s)
  else
    let imageSize := imageEnd - imageStart
    match processMemoryLayoutInit imageSize 0 0 PAGE_SIZE USER_STACK_SIZE with
    | none => some (none, s)
    | some layout => do
      let (ok, s) ← mapRegions V root (loadRegions layout) s
      if !ok then return (none, s)
      let (ok, mem) ← copyIntoRegion V S root layout.text.start imageStart imageSize s.mem
      if !ok then return (none, { s with mem })
      return (some ⟨layout.entry, layout.stackTop⟩, { s with mem })

end RvOs
