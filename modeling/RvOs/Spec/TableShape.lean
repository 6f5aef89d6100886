import RvOs.Impl.Process
import RvOs.Spec.FrameRuns

/-!
# The shape of the page tables

Any sequence of the calls that change the tables (`runTableCalls`), whatever
they return, leaves a tree of frames from the allocator, three levels deep and
linked once each (`TableShape`). `RegionLeaf` is a leaf that one of the calls of
`map_region` made.
-/

namespace RvOs

inductive TableCall where
  | map (virtualAddress physicalAddress flags : U64)
  | mapRange (virtualStart physicalStart size flags : U64)
  | region (r : MemoryRegion)

namespace TableCall

def flags : TableCall → U64
  | .map _ _ flags => flags
  | .mapRange _ _ _ flags => flags
  | .region r => r.flags

/-- Ten bits, with R, W or X set. -/
def FlagsOk (c : TableCall) : Prop := c.flags.toNat < 2 ^ 10 ∧ pteIsLeaf c.flags = true

instance (c : TableCall) : Decidable c.FlagsOk := inferInstanceAs (Decidable (_ ∧ _))

/-- A call through the direct map. -/
def run (root : Addr) : TableCall → KState → Option (Bool × KState)
  | .map virtualAddress physicalAddress flags => pagingMap .direct root virtualAddress physicalAddress flags
  | .mapRange virtualStart physicalStart size flags =>
    pagingMapRange .direct root virtualStart physicalStart size flags
  | .region r => mapRegion .direct root r

end TableCall

/-- The state after a sequence of calls, `none` if one of them faults. -/
def runTableCalls (root : Addr) : List TableCall → KState → Option KState
  | [], s => some s
  | c :: cs, s => do
    let (_, s) ← c.run root s
    runTableCalls root cs s

/-- `f` is a frame the allocator has handed out since `a`. -/
def HandedOut (a : PhysicalPageAllocator) (s : KState) (f : Addr) : Prop :=
  f ≠ 0 ∧ Aligned f ∧ ∃ n k, n < k ∧ s.allocator = allocMany k a ∧ frameOf a n = f

/-- The tables below `root`, whose frames come from the allocator `a`: `p` is the
path of a table, of length 0 at the root and of length 2 at the last level. -/
structure TableShape (a : PhysicalPageAllocator) (root : Addr) (s : KState) : Prop where
  inner : ∀ p f i, p.length ≤ 1 → tableAt s.mem root p = some f → pteIsValid (entry s.mem f i) = true →
    pteIsLeaf (entry s.mem f i) = false ∧ HandedOut a s (physAddrFromPte (entry s.mem f i))
  once : ∀ p f i p' f' i', p.length ≤ 1 → tableAt s.mem root p = some f → pteIsValid (entry s.mem f i) = true →
    p'.length ≤ 1 → tableAt s.mem root p' = some f' → pteIsValid (entry s.mem f' i') = true →
    physAddrFromPte (entry s.mem f i) = physAddrFromPte (entry s.mem f' i') → f = f' ∧ i = i'
  not_root : ∀ p f i, p.length ≤ 1 → tableAt s.mem root p = some f → pteIsValid (entry s.mem f i) = true →
    physAddrFromPte (entry s.mem f i) ≠ root
  leaf : ∀ p f i, p.length = 2 → tableAt s.mem root p = some f → pteIsValid (entry s.mem f i) = true →
    pteIsLeaf (entry s.mem f i) = true

/-- A call of `map_region` among `calls` made the leaf `e` of page `v`. -/
def RegionLeaf (root g : Addr) (calls : List TableCall) (s : KState) (v : Vpn) (e : U64) : Prop :=
  ∃ before r after s₁ ok s₂, calls = before ++ .region r :: after ∧
    runTableCalls root before s = some s₁ ∧ mapRegion .direct root r s₁ = some (ok, s₂) ∧
    space s₂.mem g v = some e ∧ space s₁.mem g v ≠ some e

/-- A call of `paging_map` for a frame below 2⁵⁶ and with legal flags. -/
def TableCall.LegalMap : TableCall → Prop
  | .map _ pa flags => pa.toNat < 2 ^ 56 ∧ LegalFlags flags
  | _ => False

end RvOs
