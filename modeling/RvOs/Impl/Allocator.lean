import RvOs.Framework.Bits

/-!
# The physical page allocator

`PhysicalPageAllocator.cpp` and `PlatformInfo.hpp`: a bump allocator of 4 KiB
frames, from the end of the kernel image and the device tree to the end of RAM.
-/

namespace RvOs

abbrev U64 := BitVec 64

def PAGE_SIZE : U64 := 4096

structure PlatformInfo where
  ramBase : U64
  ramSize : U64
  uartBase : U64
  dtbAddr : U64
  dtbSize : U64
  dtbEnd : U64
  kernelStart : U64
  kernelEnd : U64
  bssStart : U64
  bssEnd : U64
  deriving DecidableEq

/-- The free frames are those of `[current, end_)`. -/
structure PhysicalPageAllocator where
  current : U64
  end_ : U64
  deriving DecidableEq

def alignUp (value alignment : U64) : U64 := (value + alignment - 1) &&& ~~~(alignment - 1)

def maxU64 (a b : U64) : U64 := if b < a then a else b

def physicalPageAllocatorInit (platform : PlatformInfo) : Bool × PhysicalPageAllocator :=
  let dtbEnd := platform.dtbAddr + platform.dtbSize
  let reservedEnd := maxU64 platform.kernelEnd dtbEnd
  let allocator : PhysicalPageAllocator :=
    { current := alignUp reservedEnd 4096, end_ := platform.ramBase + platform.ramSize }
  if allocator.end_ ≤ allocator.current then (false, allocator) else (true, allocator)

/-- The frame handed out, 0 if none is left, and the allocator after the call. -/
def physicalAllocPage (allocator : PhysicalPageAllocator) : U64 × PhysicalPageAllocator :=
  let pageSize : U64 := 4096
  let addr := alignUp allocator.current pageSize
  if allocator.end_ < addr + pageSize then (0, allocator)
  else (addr, { allocator with current := addr + pageSize })

end RvOs
