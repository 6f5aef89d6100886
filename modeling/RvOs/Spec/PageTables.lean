import RvOs.Framework.PathTree
import RvOs.Spec.AddrSpace
import RvOs.Spec.Frames

/-!
# Page tables in memory

The tables below a root are the nodes of a tree (`tableAt`), linked by their
valid non-leaf entries, and `space` is the address space they make. `Tables`
is the invariant of the mapping code: the tables are distinct frames handed
out by the allocator, the entries of the first two levels are not leaves and
those of the last are.
-/

namespace RvOs

open PathTree

/-- `a` is a byte of the frame `f`. -/
def InFrame (f a : Addr) : Prop := a.toNat / 4096 = f.toNat / 4096

/-- Entry `i` of the table at `f`. -/
def entry (m : Mem) (f : Addr) (i : Idx) : U64 := m.read64 (entryPtr f (i.setWidth 64))

/-- The table an entry points at. -/
def pteTable (e : U64) : Option Addr :=
  if pteIsValid e && !pteIsLeaf e then some (physAddrFromPte e) else none

/-- The table below entry `i` of the table at `f`. -/
def child (m : Mem) (f : Addr) (i : Idx) : Option Addr := pteTable (entry m f i)

/-- The table reached from `root` by the indices `p`. -/
abbrev tableAt (m : Mem) (root : Addr) (p : List Idx) : Option Addr := nodeAt (child m) root p

/-- A leaf entry of a last-level table. -/
def pteLeaf (e : U64) : Option U64 := if pteIsValid e && pteIsLeaf e then some e else none

/-- The address space of the tables below `root`. -/
def space (m : Mem) (root : Addr) : AddrSpace := fun v =>
  (tableAt m root [v.i2, v.i1]).bind fun f => pteLeaf (entry m f v.i0)

/-- The tables below `root` are distinct frames below `cur`; the valid entries
of the first two levels are pointers to tables, those of the last are leaves. -/
structure Tables (m : Mem) (root : Addr) (cur : Nat) : Prop where
  tree : IsTree (child m) root 2
  frame : ∀ p f, p.length ≤ 2 → tableAt m root p = some f → IsFrame f ∧ f.toNat + 4096 ≤ cur
  inner : ∀ p f i, p.length ≤ 1 → tableAt m root p = some f → pteIsValid (entry m f i) = true →
    ∃ g, IsFrame g ∧ entry m f i = pteFromPhysAddr g PTE_V
  leaf : ∀ p f i, p.length = 2 → tableAt m root p = some f → pteIsValid (entry m f i) = true →
    pteIsLeaf (entry m f i) = true

/-- The tables below `root` are distinct and page-aligned. -/
structure TableTree (m : Mem) (root : Addr) : Prop where
  tree : IsTree (child m) root 2
  aligned : ∀ p f, p.length ≤ 2 → tableAt m root p = some f → Aligned f

/-- The mapping code's invariant. -/
structure KInv (root : Addr) (s : KState) : Prop where
  tables : Tables s.mem root s.allocator.current.toNat
  alloc : AllocOk s.allocator

/-- How many page-table frames are missing on the path of a page. -/
def missing (m : Mem) (root : Addr) (v : Vpn) : Nat :=
  if (tableAt m root [v.i2]).isNone then 2 else if (tableAt m root [v.i2, v.i1]).isNone then 1 else 0

end RvOs
