import RvOs.Spec.FrameRuns

/-!
# Paging through the active root

Once paging is on the mapping code edits the tables through which it sees
memory: each access goes through the translation of the root as it stands
(`View.active`). `DirectMapped` is what the late functions rely on, and
`runCalls` is a sequence of calls, late or early.
-/

namespace RvOs

/-- Memory as S-mode code sees it through the tables of `root`, with the SUM bit `sum`. -/
def View.active (sum : Bool) (root : Addr) : View := fun m access va =>
  (sv39Translate m root va).bind fun (pa, fl) => if sModeAllows sum fl access then some pa else none

/-- The page at `f` is a frame of RAM. -/
def FrameOf (ram : U64 → Prop) (f : Addr) : Prop := Aligned f ∧ ∀ x, InFrame f x → ram x

/-- The active root translates `phys_to_virt(p)` to `p` for every `p` in RAM,
for S-mode to read and write; its tables are a tree without sharing; and table
frames and free frames, which are no tables, are in RAM. -/
structure DirectMapped (sum : Bool) (ram : U64 → Prop) (root : Addr) (s : KState) : Prop where
  direct : ∀ p, ram p → ∃ fl, sv39Translate s.mem root (physToVirt p) = some (p, fl) ∧
    ∀ access, sModeAllows sum fl access = true
  tree : PathTree.IsTree (child s.mem) root 2
  tables : ∀ p f, p.length ≤ 2 → tableAt s.mem root p = some f → FrameOf ram f
  free : ∀ n, frameOf s.allocator n ≠ 0 → FrameOf ram (frameOf s.allocator n) ∧
    ∀ p, p.length ≤ 2 → tableAt s.mem root p ≠ some (frameOf s.allocator n)

inductive PagingCall where
  | map (virtualAddress physicalAddress flags : U64)
  | query (va : U64)

/-- What a call returns. -/
inductive PagingReply where
  | mapped (ok : Bool)
  | translation (t : Option (U64 × U64))

section Calls

variable (map : U64 → U64 → U64 → KState → Option (Bool × KState)) (query : U64 → Mem → Option (Option (U64 × U64)))

def PagingCall.run : PagingCall → KState → Option (PagingReply × KState)
  | .map virtualAddress physicalAddress flags, s => do
    let (ok, s) ← map virtualAddress physicalAddress flags s
    return (.mapped ok, s)
  | .query va, s => do
    let t ← query va s.mem
    return (.translation t, s)

/-- The replies of a sequence of calls, `none` if one of them faults. -/
def runCalls : List PagingCall → KState → Option (List PagingReply × KState)
  | [], s => some ([], s)
  | c :: cs, s => do
    let (r, s) ← c.run map query s
    let (rs, s) ← runCalls cs s
    return (r :: rs, s)

end Calls

/-- Calls of `paging_map_early` and `paging_query_early`. -/
def runEarly (root : Addr) : List PagingCall → KState → Option (List PagingReply × KState) :=
  runCalls (pagingMapEarly root) (pagingQueryEarly root)

/-- Calls of `paging_map` and `paging_query`, through the active root. -/
def runLate (sum : Bool) (root : Addr) : List PagingCall → KState → Option (List PagingReply × KState) :=
  runCalls (pagingMap (.active sum root) (physToVirt root)) (pagingQuery (.active sum root) (physToVirt root))

end RvOs
