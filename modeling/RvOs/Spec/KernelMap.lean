import RvOs.Spec.Sv39
import RvOs.Impl.PagingInit

/-!
# What the kernel's address space is to be

`KernelMap`: identity on the sections, the UART and the device tree, and RAM
at `KERNEL_DIRECT_MAP_BASE`. `LinkedKernel` is what the linker scripts
guarantee of the symbols, `PlatformWithin` bounds the platform's ranges.
-/

namespace RvOs

/-- The sections are page-aligned and in order, between `_kernel_start` and `_kernel_end`. -/
structure LinkedKernel (sym : KernelSymbols) (platform : PlatformInfo) : Prop where
  aligned : ∀ x ∈ [sym.textStart, sym.textEnd, sym.rodataStart, sym.rodataEnd,
    sym.dataStart, sym.dataEnd, sym.bssStart, sym.bssEnd], x.toNat % 4096 = 0
  ordered : List.IsChain (fun x y : U64 => x.toNat ≤ y.toNat) [sym.textStart, sym.textEnd, sym.rodataStart,
    sym.rodataEnd, sym.dataStart, sym.dataEnd, sym.bssStart, sym.bssEnd]
  kernelStart : platform.kernelStart = sym.textStart
  kernelEnd : platform.kernelEnd = sym.bssEnd

/-- The kernel image, the device tree and RAM end at or below `limit`. -/
structure PlatformWithin (limit : Nat) (platform : PlatformInfo) : Prop where
  kernel : platform.kernelEnd.toNat ≤ limit
  dtb : platform.dtbAddr.toNat + platform.dtbSize.toNat ≤ limit
  ram : platform.ramBase.toNat + platform.ramSize.toNat ≤ limit

/-- The address `va` is in `[start, end_)`, at itself. -/
def identityMap (start end_ : Nat) (va pa : U64) : Prop := start ≤ va.toNat ∧ va.toNat < end_ ∧ pa = va

/-- The address `va` is in a page the device tree touches, at itself. -/
def dtbMap (platform : PlatformInfo) (va pa : U64) : Prop :=
  (∃ x, platform.dtbAddr.toNat ≤ x ∧ x < platform.dtbAddr.toNat + platform.dtbSize.toNat ∧
    va.toNat / 4096 = x / 4096) ∧ pa = va

/-- The address `va` is that of a byte of RAM, rounded up to whole pages, in the direct map. -/
def directMap (platform : PlatformInfo) (va pa : U64) : Prop :=
  platform.ramBase.toNat ≤ pa.toNat ∧
    pa.toNat < platform.ramBase.toNat + (platform.ramSize.toNat + 4095) / 4096 * 4096 ∧ va = physToVirt pa

/-- The kernel's address space: `va` translates to `pa` with the flags `fl`. -/
def KernelMap (sym : KernelSymbols) (platform : PlatformInfo) (va pa fl : U64) : Prop :=
  (identityMap sym.textStart.toNat sym.textEnd.toNat va pa ∧ fl = leafFlags (PTE_R ||| PTE_X)) ∨
  (identityMap sym.rodataStart.toNat sym.rodataEnd.toNat va pa ∧ fl = leafFlags PTE_R) ∨
  (identityMap sym.dataStart.toNat sym.dataEnd.toNat va pa ∧ fl = leafFlags (PTE_R ||| PTE_W)) ∨
  (identityMap sym.bssStart.toNat sym.bssEnd.toNat va pa ∧ fl = leafFlags (PTE_R ||| PTE_W)) ∨
  (identityMap (platform.uartBase.toNat / 4096 * 4096) (platform.uartBase.toNat / 4096 * 4096 + 4096) va pa ∧
    fl = leafFlags (PTE_R ||| PTE_W)) ∨
  (dtbMap platform va pa ∧ fl = leafFlags (PTE_R ||| PTE_W)) ∨
  (directMap platform va pa ∧ fl = leafFlags (PTE_R ||| PTE_W))

/-- The address `pa` is in `.text` or in `.rodata`. -/
def InCode (sym : KernelSymbols) (pa : U64) : Prop :=
  sym.textStart.toNat ≤ pa.toNat ∧ pa.toNat < sym.textEnd.toNat ∨
    sym.rodataStart.toNat ≤ pa.toNat ∧ pa.toNat < sym.rodataEnd.toNat

/-- How many pages a range has. -/
def MapRange.pages (r : MapRange) : Nat := (alignUp r.size PAGE_SIZE).toNat / 4096

end RvOs
