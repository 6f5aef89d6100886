import RvOs.Spec.LineEditor
import RvOs.Spec.TrapPath

/-!
# System calls and the kernel's own memory

A system call runs on the page tables in force and on memory of the kernel, such
as its stack. It checks no user pointer, so a line that `read` stores may go over
these, and what the call does from there on is not in the source
(`MayEnd.wild`). However it ends, it is not to be a panic (`NoPanic`).
-/

namespace RvOs

open Exec

/-- From `m` to `m'` neither the kernel's own memory nor the translation has changed. -/
structure Undisturbed (root : Addr) (own : Addr → Prop) (m m' : Mem) : Prop where
  own : ∀ a, own a → m' a = m a
  tables : Translation.ofTables m' root = .ofTables m root

/-- The kernel is undisturbed by each byte of a line that is stored. -/
def Spares (root : Addr) (own : Addr → Prop) (m : Mem) (buffer : U64) (line : List Byte) : Prop :=
  let T := Translation.ofTables m root
  ∀ n ≤ line.length, (∀ i < n, T.Allows .store (byteAddr buffer i)) →
      Undisturbed root own m (storedMem T m buffer line n)

/-- The trap is no call of `read`, or one that spares the kernel. -/
def TrapSpares (root : Addr) (own : Addr → Prop) (frame : TrapFrame) (s : Hart) : Prop :=
  frame.isUserEcall = true → frame.a7 = SYSCALL_READ → ∀ line, Delivers frame.a0 frame.a1 frame.a2 s.rx line →
    Spares root own s.mem frame.a1 line

/-- How a trap may end: as it runs under the tables in force, or in any way. -/
inductive MayEnd (root : Addr) (own : Addr → Prop) (kernel frame : TrapFrame) (n : Nat) (s : Hart) :
    Except Stop TrapFrame → Prop
  | runs (h : TrapSpares root own frame s) :
      MayEnd root own kernel frame n s (outcome (runTrap (.ofTables s.mem root) kernel n frame s))
  | wild {r : Except Stop TrapFrame} (h : ¬ TrapSpares root own frame s) : MayEnd root own kernel frame n s r

/-- The trap does not panic, and a byte out of reach makes it return `-EFAULT`. -/
structure NoPanic (root : Addr) (own : Addr → Prop) (kernel frame : TrapFrame) (n : Nat) (s : Hart) : Prop where
  panic : ∀ r, MayEnd root own kernel frame n s r → r ≠ .error .panicked
  fault : (∃ access va, HasToAccess frame s.rx access va ∧ ¬ (Translation.ofTables s.mem root).Allows access va) →
    ∀ r, MayEnd root own kernel frame n s r → ∃ f', r = .ok f' ∧ f'.a0 = ERR_FAULT ∧ f'.epc = frame.epc + 4

end RvOs
