import RvOs.Framework.Linker
import RvOs.Impl.Allocator

/-!
# The stacks of the kernel image

`.bss` of `kernel-m.ld` and `kernel-s.ld`, and what the sources put in the
sections of the stacks.
-/

namespace RvOs

open Linker

/-- `kernel-m` starts in M-mode and `kernel-s` in S-mode. -/
inductive Boot where
  | machine
  | supervisor

/-- The symbols that `.bss` defines. -/
inductive BssSymbol where
  | bssStart
  | kernelStackBottom
  | kernelStackTop
  | supervisorTrapStackBottom
  | supervisorTrapStackTop
  | machineTrapStackBottom
  | machineTrapStackTop
  | bssEnd
  deriving DecidableEq

/-- `.bss`, the same in both scripts. -/
def kernelBss : List (Statement BssSymbol) := [
  .symbol .bssStart,
  .input (.exact ".bss"),
  .input (.exact ".sbss"),
  .input (.starting ".sbss"),
  .input (.exact "COMMON"),
  .align 16,
  .symbol .kernelStackBottom,
  .input (.exact ".bss.stack"),
  .align 16,
  .symbol .kernelStackTop,
  .align 16,
  .symbol .supervisorTrapStackBottom,
  .input (.exact ".bss.trapstack"),
  .align 16,
  .symbol .supervisorTrapStackTop,
  .align 16,
  .symbol .machineTrapStackBottom,
  .input (.exact ".bss.mtrapstack"),
  .align 16,
  .symbol .machineTrapStackTop,
  .input (.starting ".bss."),
  .align 4096,
  .symbol .bssEnd]

/-- `.bss.stack` of `m_entry.S` and of `s_entry.S`: `.align 16` is to 2¹⁶ bytes. -/
def bootStackSection : InputSection := ⟨".bss.stack", 2 ^ 16, 8192⟩

/-- An image that is linked: where its `.bss` starts, and the input sections of
its objects. No source but the entry code names a section of a stack. -/
structure KernelImage where
  boot : Boot
  start : Nat
  sections : List InputSection
  stack : sections.filter (·.name == ".bss.stack") = [bootStackSection]
  trapstack : sections.filter (·.name == ".bss.trapstack") = []
  mtrapstack : sections.filter (·.name == ".bss.mtrapstack") = []
  fits : (link start sections kernelBss).dot < 2 ^ 64

/-- Addresses from `lo` to below `hi`. -/
structure Region where
  lo : U64
  hi : U64

namespace KernelImage

variable (k : KernelImage)

def layout : Layout BssSymbol := link k.start k.sections kernelBss

def symbol (x : BssSymbol) : U64 := BitVec.ofNat 64 (k.layout.symbols x)

def stackBottom : U64 := BitVec.ofNat 64 ((k.layout.find ".bss.stack").getD 0)

def stackTop : U64 := k.stackBottom + 8192

def bootStack : Region := ⟨k.stackBottom, k.stackTop⟩

def supervisorTrapStack : Region := ⟨k.symbol .supervisorTrapStackBottom, k.symbol .supervisorTrapStackTop⟩

def machineTrapStack : Region := ⟨k.symbol .machineTrapStackBottom, k.symbol .machineTrapStackTop⟩

end KernelImage

end RvOs
