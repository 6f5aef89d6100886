import RvOs.Spec.KernelMap
import RvOs.Spec.PageTables

/-!
# What the frame allocator is for

The frames that the calls of `physical_alloc_page` hand out, one after the
other: whole frames of RAM, past the kernel image and the device tree, each
handed out once, until none is left (`AllocatorSound`), and each reached through
the direct map when paging is on (`FramesReached`).
-/

namespace RvOs

/-- What call `n` of `physical_alloc_page` returns, counting from 0. -/
def frameOf (a : PhysicalPageAllocator) (n : Nat) : U64 := (physicalAllocPage (allocMany n a)).1

variable (platform : PlatformInfo)

def PlatformInfo.ramEnd : Nat := platform.ramBase.toNat + platform.ramSize.toNat

/-- An address of RAM. -/
def PlatformInfo.InRam (x : U64) : Prop := platform.ramBase.toNat ≤ x.toNat ∧ x.toNat < platform.ramEnd

/-- The end of what the kernel image and the device tree occupy. -/
def PlatformInfo.reservedEnd : Nat := max platform.kernelEnd.toNat (platform.dtbAddr.toNat + platform.dtbSize.toNat)

/-- The address `x` is in the kernel image or in the device tree. -/
def PlatformInfo.Reserved (x : Nat) : Prop :=
  platform.kernelStart.toNat ≤ x ∧ x < platform.kernelEnd.toNat ∨
    platform.dtbAddr.toNat ≤ x ∧ x < platform.dtbAddr.toNat + platform.dtbSize.toNat

/-- Before call `n` a whole frame fits before the end of RAM, past the kernel
image, the device tree and every frame handed out. -/
def FrameFits (a : PhysicalPageAllocator) (n : Nat) : Prop :=
  ∃ f, f % 4096 = 0 ∧ platform.reservedEnd ≤ f ∧ (∀ i < n, frameOf a i ≠ 0 → (frameOf a i).toNat < f) ∧
    f + 4096 ≤ platform.ramEnd

/-- Any number of calls of `physical_alloc_page` from `a`. -/
structure AllocatorSound (a : PhysicalPageAllocator) : Prop where
  aligned : ∀ n, frameOf a n ≠ 0 → Aligned (frameOf a n)
  increasing : ∀ i j, i < j → frameOf a i ≠ 0 → frameOf a j ≠ 0 → (frameOf a i).toNat < (frameOf a j).toNat
  within : ∀ n, frameOf a n ≠ 0 → (frameOf a n).toNat + 4096 ≤ platform.ramEnd
  apart : ∀ n, frameOf a n ≠ 0 → ∀ x, (frameOf a n).toNat ≤ x → x < (frameOf a n).toNat + 4096 →
    ¬ platform.Reserved x
  zero_iff : ∀ n, frameOf a n = 0 ↔ ¬ FrameFits platform a n
  unchanged : ∀ n, frameOf a n = 0 → allocMany (n + 1) a = allocMany n a
  exhausted : ∀ n, frameOf a n = 0 → ∀ k, n ≤ k → frameOf a k = 0

/-- Every frame handed out from `a` is in RAM, and the tables of `satp` in `m`
translate each of its bytes from `phys_to_virt`, readable and writable. -/
def FramesReached (a : PhysicalPageAllocator) (m : Mem) (satp : U64) : Prop :=
  ∀ n, frameOf a n ≠ 0 → platform.ramBase.toNat ≤ (frameOf a n).toNat ∧
    (frameOf a n).toNat + 4096 ≤ platform.ramEnd ∧
    ∀ x : U64, x.toNat / 4096 = (frameOf a n).toNat / 4096 →
      ∃ fl, sv39Translate m (satpRoot satp) (physToVirt x) = some (x, fl) ∧
        hasFlag fl PTE_R = true ∧ hasFlag fl PTE_W = true

end RvOs
