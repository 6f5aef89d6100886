import RvOs.Spec.PageTables

/-!
# What mappings are to do

What the functions that map a page or a range leave, as the queries of the
translations before and after see it, over the states that a table goes through
(`Reached`).
-/

namespace RvOs

/-- Arguments of a mapping: a canonical page, a frame below 2⁵⁶, and flags of a leaf. -/
structure MapArgs (va pa flags : U64) : Prop where
  va_aligned : Aligned va
  va_canonical : Canonical va
  pa_aligned : Aligned pa
  pa_lt : pa.toNat < 2 ^ 56
  flags_lt : flags.toNat < 2 ^ 10
  leaf : pteIsLeaf flags = true

/-- The states reached from a root table by mappings, failed or not, and other
allocations, on physical memory seen through `phys_to_virt`. A root in the frame
2³⁸, which `phys_to_virt` takes to a null pointer, is left out by `root ≠ 0`. -/
inductive Reached (root : Addr) : KState → Prop where
  | create {s s' : KState} : AllocOk s.allocator →
      pagingCreateRootTableVia .direct physToVirt s = some (root, s') → root ≠ 0 → Reached root s'
  | map {s s' : KState} {va pa flags : U64} {b : Bool} : Reached root s → MapArgs va pa flags →
      pagingMap .direct root va pa flags s = some (b, s') → Reached root s'
  | alloc {s : KState} : Reached root s →
      Reached root { s with allocator := (physicalAllocPage s.allocator).2 }

/-- The physical address and flags of an address in memory's tables: `none` for
a fault, `some none` where it is not mapped. -/
abbrev Query := U64 → Mem → Option (Option (U64 × U64))

/-- `paging_map` of `va` to `pa`: what it accepts an entry can hold, and what it
refuses changes no translation. -/
structure MappedExactly (query : Query) (g : Addr) (va pa : U64) (s : KState) (ok : Bool) (s' : KState) : Prop where
  accepted : ok = true → Canonical va ∧
    ∃ pte, space s'.mem g (vpnOf va) = some pte ∧ physAddrFromPte pte = pa ∧ pte >>> 54 = 0
  refused : ok = false → ∀ a, Canonical a → query a s'.mem = query a s.mem

/-- `paging_map` refuses its arguments, or finds the page mapped or no frames for its tables. -/
def Refuses (g : Addr) (s : KState) (va pa : U64) : Prop := ¬ (Aligned va ∧ Aligned pa) ∨
  space s.mem g (vpnOf va) ≠ none ∨ ¬ supplies (missing s.mem g (vpnOf va)) s.allocator

/-- A range of whole pages: the number of pages of `size` bytes. -/
def pageCount (size : U64) : Nat := (size.toNat + 4095) / 4096

/-- From `m` to `m'` the first `n` pages of a range are added, and nothing else changes. -/
structure PagesAdded (query : Query) (va pa flags : U64) (n : Nat) (m m' : Mem) : Prop where
  free : ∀ i < 4096 * n, query (va + BitVec.ofNat 64 i) m = some none
  added : ∀ i < 4096 * n, query (va + BitVec.ofNat 64 i) m' =
    some (some (pa + BitVec.ofNat 64 i, flags ||| PTE_V ||| PTE_A ||| PTE_D))
  other : ∀ a, Canonical a → (∀ i < 4096 * n, a ≠ va + BitVec.ofNat 64 i) → query a m' = query a m

/-- A range that neither wraps nor leaves its half of the canonical addresses, with
frames that end at or below 2⁵⁶ and flags of a leaf. -/
structure RangeArgs (va pa size flags : U64) : Prop where
  size_lt : size.toNat + 4095 < 2 ^ 64
  va_aligned : va.toNat % 4096 = 0
  half : size ≠ 0 → va.toNat + 4096 * pageCount size ≤ 2 ^ 38 ∨
    2 ^ 64 - 2 ^ 38 ≤ va.toNat ∧ va.toNat + 4096 * pageCount size ≤ 2 ^ 64
  pa_aligned : pa.toNat % 4096 = 0
  frames : pa.toNat + 4096 * pageCount size ≤ 2 ^ 56
  flags_lt : flags.toNat < 2 ^ 10
  leaf : pteIsLeaf flags = true

/-- A range mapped in `s`: with `ok` all its pages are added, else those before
page `k`, which was mapped already or found the allocator empty. -/
structure RangeMapped (query : Query) (va pa size flags : U64) (s : KState) (ok : Bool) (s' : KState) : Prop where
  all : ok = true → PagesAdded query va pa flags (pageCount size) s.mem s'.mem
  part : ok = false → ∃ k < pageCount size, PagesAdded query va pa flags k s.mem s'.mem ∧
    ((∃ x, query (va + BitVec.ofNat 64 (4096 * k)) s.mem = some (some x)) ∨
      (physicalAllocPage s'.allocator).1 = 0)

end RvOs
