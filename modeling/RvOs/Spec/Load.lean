import RvOs.Impl.Process
import RvOs.Impl.UserLink

/-!
# What a loaded program finds

What the addresses of a user program read through its page tables (`UserByte`),
and what a linked one has its sections mapped for (`SectionsMapped`).
-/

namespace RvOs

/-- The address `a` reads `x` through `paging_query`, with the flags `fl`. -/
def UserByte (root : Addr) (m : Mem) (a fl : U64) (x : Byte) : Prop :=
  ∃ pa, pagingQuery .direct root a m = some (some (pa, fl)) ∧ m pa = x

/-- The addresses of `[lo, hi)` are mapped with every flag of `mask`. -/
def MappedWith (root : Addr) (m : Mem) (lo hi : Nat) (mask : U64) : Prop :=
  ∀ a : U64, lo ≤ a.toNat → a.toNat < hi → ∃ pa fl, pagingQuery .direct root a m = some (some (pa, fl)) ∧
    fl &&& mask = mask

/-- The addresses of `[lo, hi)` read as zero. -/
def ReadsZero (root : Addr) (m : Mem) (lo hi : Nat) : Prop :=
  ∀ a : U64, lo ≤ a.toNat → a.toNat < hi → ∃ pa fl, pagingQuery .direct root a m = some (some (pa, fl)) ∧ m pa = 0

/-- The sections of a user program are mapped for what they are: `.data` and
`.bss` for reading and writing, `.bss` zeroed, and `.text` for execution. -/
structure SectionsMapped (root : Addr) (m : Mem) (l : UserSymbols) : Prop where
  data : MappedWith root m l.userDataStart l.userDataEnd (PTE_U ||| PTE_R ||| PTE_W)
  bss : MappedWith root m l.userBssStart l.userBssEnd (PTE_U ||| PTE_R ||| PTE_W)
  text : MappedWith root m l.userTextStart l.userTextEnd (PTE_U ||| PTE_X)
  zero : ReadsZero root m l.userBssStart l.userBssEnd

/-- A program has no `.data`, and its `.bss` is empty or starts with a page and fits in it. -/
def OnePageBss (sections : UserSections) : Prop :=
  sections.data = 0 ∧ (sections.bss = 0 ∨ flatImageSize sections % 4096 = 0 ∧ sections.bss ≤ 4096)

instance (sections : UserSections) : Decidable (OnePageBss sections) := inferInstanceAs (Decidable (_ ∧ _))

end RvOs
