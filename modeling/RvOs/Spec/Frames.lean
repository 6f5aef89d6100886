import RvOs.Impl.Allocator

/-!
# Frames

Pages of physical memory, and the allocator that hands them out: its range
excludes page 0 and ends at or below 2⁵⁶ (`AllocOk`), and `supplies n` says that
the next `n` calls all hand out a frame.
-/

namespace RvOs

/-- `x` is a multiple of the page size. -/
def Aligned (x : U64) : Prop := x.toNat % 4096 = 0

instance (x : U64) : Decidable (Aligned x) := inferInstanceAs (Decidable (_ = _))

/-- `offset` after `j` iterations of a page loop. -/
abbrev pageOff (j : Nat) : U64 := BitVec.ofNat 64 (4096 * j)

/-- A frame: page-aligned, not page 0, ending at or below 2⁵⁶. -/
structure IsFrame (f : U64) : Prop where
  aligned : Aligned f
  pos : 4096 ≤ f.toNat
  lt : f.toNat + 4096 ≤ 2 ^ 56

/-- The allocator's range excludes page 0 and ends at or below 2⁵⁶. -/
structure AllocOk (a : PhysicalPageAllocator) : Prop where
  pos : 4096 ≤ a.current.toNat
  le : a.current.toNat ≤ a.end_.toNat
  lt : a.end_.toNat ≤ 2 ^ 56

/-- The next `n` calls of `physical_alloc_page` all hand out a frame. -/
def supplies : Nat → PhysicalPageAllocator → Prop
  | 0, _ => True
  | n + 1, a => (physicalAllocPage a).1 ≠ 0 ∧ supplies n (physicalAllocPage a).2

/-- The allocator after `n` calls of `physical_alloc_page`. -/
def allocMany : Nat → PhysicalPageAllocator → PhysicalPageAllocator
  | 0, a => a
  | n + 1, a => allocMany n (physicalAllocPage a).2

instance decidableSupplies : ∀ n a, Decidable (supplies n a)
  | 0, _ => inferInstanceAs (Decidable True)
  | n + 1, a => have := decidableSupplies n (physicalAllocPage a).2; inferInstanceAs (Decidable (_ ∧ _))

/-- What a call hands out: `f`, the next frame of the range of `a`, leaving `a'`. -/
structure HandsOut (a : PhysicalPageAllocator) (f : U64) (a' : PhysicalPageAllocator) : Prop where
  frame : IsFrame f
  le : a.current.toNat ≤ f.toNat
  lt : f.toNat < a.current.toNat + 4096
  current : a'.current.toNat = f.toNat + 4096
  end_ : a'.end_ = a.end_
  ok : AllocOk a'

end RvOs
