import RvOs.Spec.Mapping
import RvOs.Spec.TableShape

/-!
# What the functions on user regions are to do

Each page of a mapped region gets a frame of its own, handed out for it and
zeroed (`FreshRegion`), and besides these frames only those of new page tables
are used (`Consumed`). A copy writes the bytes before the first address that is
not mapped, and nothing else (`Copied`).
-/

namespace RvOs

/-- Flags of a leaf. -/
def FlagsOk (flags : U64) : Prop := flags.toNat < 2 ^ 10 ∧ pteIsLeaf flags = true

/-- The paths of the tables that are there in `s'` and were not in `s`, once each. -/
structure Linked (root : Addr) (s s' : KState) (linked : List (List Idx)) : Prop where
  nodup : linked.Nodup
  mem_iff : ∀ p, p ∈ linked ↔ p.length ≤ 2 ∧ tableAt s.mem root p = none ∧ (tableAt s'.mem root p).isSome

/-- From `s` to `s'` the allocator hands out `n` frames, and one for each table linked. -/
def Consumed (root : Addr) (s : KState) (n : Nat) (s' : KState) : Prop := ∃ linked, Linked root s s' linked ∧
  supplies (n + linked.length) s.allocator ∧ s'.allocator = allocMany (n + linked.length) s.allocator

/-- From `s` to `s'` page `j` of the region `r` gets the frame `frames j`. -/
structure FreshRegion (g : Addr) (r : MemoryRegion) (frames : Nat → Addr) (s s' : KState) : Prop where
  mapped : ∀ i < r.size.toNat, pagingQuery .direct (physToVirt g) (r.start + BitVec.ofNat 64 i) s'.mem =
    some (some (frames (i / 4096) + BitVec.ofNat 64 (i % 4096), r.flags ||| PTE_V ||| PTE_A ||| PTE_D))
  handedOut : ∀ j < r.size.toNat / 4096, HandedOut s.allocator s' (frames j)
  distinct : ∀ i < r.size.toNat / 4096, ∀ j < r.size.toNat / 4096, frames i = frames j → i = j
  not_table : ∀ j < r.size.toNat / 4096, ∀ p, p.length ≤ 2 → tableAt s'.mem g p ≠ some (frames j)
  zero : ∀ j < r.size.toNat / 4096, ∀ i < 4096, s'.mem (frames j + BitVec.ofNat 64 i) = 0
  other : ∀ a, Canonical a → (∀ i < r.size.toNat, a ≠ r.start + BitVec.ofNat 64 i) →
    pagingQuery .direct (physToVirt g) a s'.mem = pagingQuery .direct (physToVirt g) a s.mem
  consumed : Consumed g s (r.size.toNat / 4096) s'

/-! ## Copies -/

/-- Pages to copy `size` bytes to: they have different frames, which are no page
tables and no bytes of the source. -/
structure CopyTarget (query : Query) (g : Addr) (va : U64) (src : Addr) (size : U64) (m : Mem) : Prop where
  size_le : va.toNat + size.toNat ≤ 2 ^ 64
  apart : ∀ i < size.toNat, ∀ j < size.toNat, ∀ x fl y fl',
    query (va + BitVec.ofNat 64 i) m = some (some (x, fl)) → query (va + BitVec.ofNat 64 j) m = some (some (y, fl')) →
      (va.toNat + i) / 4096 ≠ (va.toNat + j) / 4096 → x.toNat / 4096 ≠ y.toNat / 4096
  not_table : ∀ i < size.toNat, ∀ x fl, query (va + BitVec.ofNat 64 i) m = some (some (x, fl)) →
    ∀ p f, p.length ≤ 2 → tableAt m g p = some f → ¬ InFrame f x
  not_source : ∀ i < size.toNat, ∀ x fl, query (va + BitVec.ofNat 64 i) m = some (some (x, fl)) →
    ∀ j < size.toNat, src + BitVec.ofNat 64 j ≠ x

/-- The addresses from `va` on that are mapped, up to byte `k`. -/
def MappedUpTo (query : Query) (va : U64) (m : Mem) (k : Nat) : Prop :=
  ∀ i < k, ∃ x, query (va + BitVec.ofNat 64 i) m = some (some x)

/-- From `m` to `m'` the first `k` bytes at `src` are copied, and nothing else changes. -/
structure BytesCopied (query : Query) (va : U64) (src : Addr) (k : Nat) (m m' : Mem) : Prop where
  copied : ∀ i < k, ∀ x fl, query (va + BitVec.ofNat 64 i) m = some (some (x, fl)) → m' x = m (src + BitVec.ofNat 64 i)
  other : ∀ a, (∀ i < k, ∀ fl, query (va + BitVec.ofNat 64 i) m ≠ some (some (a, fl))) → m' a = m a
  query : ∀ a, query a m' = query a m

/-- A copy of `size` bytes that returns `ok`. -/
structure Copied (query : Query) (va : U64) (src : Addr) (size : U64) (m : Mem) (ok : Bool) (m' : Mem) : Prop where
  ok_iff : ok = true ↔ MappedUpTo query va m size.toNat
  all : ok = true → BytesCopied query va src size.toNat m m'
  part : ok = false → ∃ k < size.toNat, MappedUpTo query va m k ∧ query (va + BitVec.ofNat 64 k) m = some none ∧
    BytesCopied query va src k m m'

end RvOs
