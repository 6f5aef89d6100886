import RvOs.Impl.Process

/-!
# What the layout of a program is to be

The rounded sizes taken in unbounded integers: whether they fit below the
stack (`LayoutSizes.Fits`), and the regions of a layout that has room for
them (`LayoutSizes.Placed`).
-/

namespace RvOs

/-- `n` rounded up to whole pages. -/
def pagesUp (n : Nat) : Nat := (n + 4095) / 4096 * 4096

namespace LayoutSizes

variable (z : LayoutSizes)

/-- Where the heap starts. -/
def low : Nat := USER_TEXT_START.toNat + pagesUp z.text.toNat + pagesUp z.rodata.toNat + pagesUp z.data.toNat +
  pagesUp z.bss.toNat

/-- The size of the stack, at least one page. -/
def stackSize : Nat := max 4096 (pagesUp z.stack.toNat)

/-- The rounded sizes leave a gap between `USER_TEXT_START` and the stack's top. -/
def Fits : Prop := pagesUp z.text.toNat + pagesUp z.rodata.toNat + pagesUp z.data.toNat + pagesUp z.bss.toNat +
  z.stackSize < (alignDown USER_STACK_TOP PAGE_SIZE).toNat - USER_TEXT_START.toNat

instance : Decidable z.Fits := inferInstanceAs (Decidable (_ < _))

end LayoutSizes

def MemoryRegion.end_ (r : MemoryRegion) : Nat := r.start.toNat + r.size.toNat

/-- The regions of a layout, in the order of their addresses. -/
def ProcessMemoryLayout.regions (l : ProcessMemoryLayout) : List MemoryRegion :=
  [l.text, l.rodata, l.data, l.bss, l.heap, l.stack]

/-- The regions of a layout with room for the sizes `z`. -/
structure LayoutSizes.Placed (z : LayoutSizes) (l : ProcessMemoryLayout) : Prop where
  text : l.text.start = USER_TEXT_START
  rodata : l.rodata.start.toNat = l.text.end_
  data : l.data.start.toNat = l.rodata.end_
  bss : l.bss.start.toNat = l.data.end_
  heap : l.heap.start.toNat = l.bss.end_
  aligned : ∀ r ∈ l.regions, r.start.toNat % 4096 = 0 ∧ r.size.toNat % 4096 = 0
  large : z.text.toNat ≤ l.text.size.toNat ∧ z.rodata.toNat ≤ l.rodata.size.toNat ∧
    z.data.toNat ≤ l.data.size.toNat ∧ z.bss.toNat ≤ l.bss.size.toNat ∧ z.stack.toNat ≤ l.stack.size.toNat
  apart : l.regions.Pairwise fun r r' => ∀ x, ¬ ((r.start.toNat ≤ x ∧ x < r.end_) ∧ (r'.start.toNat ≤ x ∧ x < r'.end_))
  within : ∀ r ∈ l.regions, USER_TEXT_START.toNat ≤ r.start.toNat ∧ r.end_ ≤ USER_STACK_TOP.toNat
  gap : l.heap.end_ + 4096 ≤ l.stack.start.toNat
  heapBreak : l.heapBreak = l.heap.start

/-- `process_memory_layout_init` on the sizes `z`, for any layout of the caller. -/
structure LayoutSound (z : LayoutSizes) : Prop where
  accepts : ∀ l, (processMemoryLayoutInitAt l z).1 = true ↔ z.Fits
  placed : ∀ l, (processMemoryLayoutInitAt l z).1 = true → z.Placed (processMemoryLayoutInitAt l z).2
  unchanged : ∀ l, (processMemoryLayoutInitAt l z).1 = false → (processMemoryLayoutInitAt l z).2 = l

/-- The stack's size after a rounding modulo 2⁶⁴: a page where it wraps to 0. -/
def LayoutSizes.wrappedStack (z : LayoutSizes) : Nat := if z.stackSize = 2 ^ 64 then 4096 else z.stackSize

/-- With the sums taken modulo 2⁶⁴ too, the stack does not start past the heap. -/
def LayoutSizes.Full (z : LayoutSizes) : Prop :=
  (if z.wrappedStack ≤ USER_STACK_TOP.toNat then USER_STACK_TOP.toNat else 2 ^ 64 + USER_STACK_TOP.toNat) ≤
    z.low % 2 ^ 64 + z.wrappedStack

instance (z : LayoutSizes) : Decidable z.Full := inferInstanceAs (Decidable (_ ≤ _))

end RvOs
