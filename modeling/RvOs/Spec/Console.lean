import RvOs.Impl.Supervisor
import RvOs.Spec.TableShape

/-!
# The console and the page tables

Every address the UART driver accesses is to be in the UART's registers, and
the tables in force are to map it there, readable and writable, whatever is
mapped later (`ConsoleSound`).
-/

namespace RvOs

/-- The address `x` is one of the `n` of the UART at `u`. -/
def InUart (u : U64) (n : Nat) (x : U64) : Prop := u.toNat ≤ x.toNat ∧ x.toNat < u.toNat + n

/-- The accesses of a driver whose base is `gUartBase`. -/
def ConsoleReached (u : U64) (n : Nat) (gUartBase : U64) (m : Mem) (satp : U64) : Prop :=
  ∀ a ∈ uartAccesses gUartBase, InUart u n a.2 ∧
    ∃ pa fl, sv39Translate m (satpRoot satp) a.2 = some (pa, fl) ∧ InUart u n pa ∧
      hasFlag fl PTE_R = true ∧ hasFlag fl PTE_W = true

/-- From `s` on, after any sequence of mapping calls. Nothing else is taken to write
`g_uart_base` or the tables: a line that `read` stores over them is left out. -/
def ConsoleSound (n : Nat) (s : Supervisor) : Prop :=
  ∀ calls s', (∀ c ∈ calls, TableCall.FlagsOk c) → runTableCalls s.root calls s.toKState = some s' →
    ConsoleReached s.platform.uartBase n s.gUartBase s'.mem s.satp

/-- The ranges at themselves, readable and writable, besides the UART page. -/
def writableRanges (sym : KernelSymbols) (platform : PlatformInfo) : List MapRange :=
  [.identity sym.dataStart (sym.dataEnd - sym.dataStart) (PTE_R ||| PTE_W),
   .identity sym.bssStart (sym.bssEnd - sym.bssStart) (PTE_R ||| PTE_W),
   .identity (dtbPageBase platform) (dtbPageEnd platform - dtbPageBase platform) (PTE_R ||| PTE_W)]

/-- `x` is a page of one of them: of `.data`, of `.bss` or of the device tree. -/
def WritablePage (sym : KernelSymbols) (platform : PlatformInfo) (x : U64) : Prop :=
  ∃ r ∈ writableRanges sym platform, ∃ j < r.pages, r.virtualStart + pageOff j = x

end RvOs
