import RvOs.Spec.AddrSpace

/-!
# Sv39 translation

The address translation of the RISC-V privileged specification for Sv39, on
the tables in memory: three levels of 512 entries, leaves at any level
(`sv39Walk`), and faults on the reserved encodings. Permission checks are
apart from it (`sModeAllows`). The software walk is to agree (`WalksAgree`).
-/

namespace RvOs

/-- Some bit of `mask` is set in an entry. -/
def hasFlag (pte mask : U64) : Bool := (pte &&& mask) != 0

/-- The encodings every level reserves: writable but not readable, and bits 63 to 54. -/
def pteReserved (pte : U64) : Bool := (!hasFlag pte PTE_R && hasFlag pte PTE_W) || pte >>> 54 != 0

/-- The offset of an address in a page of level `level`. -/
def levelOffset (level : Nat) (va : U64) : U64 := va &&& BitVec.ofNat 64 (2 ^ (12 + 9 * level) - 1)

/-- The walk from the table of level `level` at `table`: the physical address and
the leaf entry, or `none` for a page fault. -/
def sv39Walk (m : Mem) (va : U64) : Nat → Addr → Option (U64 × U64)
  | level, table =>
    let pte := m.read64 (table + ((va >>> (12 + 9 * level)) &&& 0x1FF) * 8)
    if !pteIsValid pte || pteReserved pte then none
    else if hasFlag pte (PTE_R ||| PTE_X) then
      -- a superpage has to be aligned
      if levelOffset level (physAddrFromPte pte) ≠ 0 then none
      else some (physAddrFromPte pte + levelOffset level va, pte)
    else match level with
      | 0 => none
      | level + 1 =>
        if hasFlag pte (PTE_U ||| PTE_A ||| PTE_D) then none
        else sv39Walk m va level (physAddrFromPte pte)

/-- The physical address and the low ten bits of the leaf entry of an address,
with the root table at `root`. -/
def sv39Translate (m : Mem) (root : Addr) (va : U64) : Option (U64 × U64) :=
  if Canonical va then (sv39Walk m va 2 root).map fun (pa, pte) => (pa, pte &&& 0x3FF) else none

/-- What the tables in force give for each address: a physical address and the
flags of its page, `none` for a page fault. -/
abbrev Translation := U64 → Option (U64 × U64)

/-- S-mode may make an access to a page with these flags: user pages only with
`sum` (SUM of `sstatus`), and executable pages as any other (MXR is 0). -/
def sModeAllows (sum : Bool) (flags : U64) : Access → Bool
  | .load => hasFlag flags PTE_R && (sum || !hasFlag flags PTE_U)
  | .store => hasFlag flags PTE_W && (sum || !hasFlag flags PTE_U)

/-- The root table of a `satp` value. -/
def satpRoot (satp : U64) : Addr := (satp &&& 0xFFFFFFFFFFF) <<< 12

/-- `paging_query` below the root at `root` finds what Sv39 finds. -/
def WalksAgree (m : Mem) (root : Addr) : Prop :=
  ∀ va, Canonical va → pagingQuery .direct (physToVirt root) va m = some (sv39Translate m root va)

/-- A leaf entry Sv39 accepts. -/
structure LegalLeaf (e : U64) : Prop where
  reserved : pteReserved e = false
  leaf : hasFlag e (PTE_R ||| PTE_X) = true

/-- Legal flags of a leaf: R, W or X, and not W alone. -/
structure LegalFlags (flags : U64) : Prop where
  lt : flags.toNat < 2 ^ 10
  leaf : pteIsLeaf flags = true
  write : hasFlag flags PTE_W = true → hasFlag flags PTE_R = true

end RvOs
