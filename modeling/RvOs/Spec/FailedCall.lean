import RvOs.Spec.LineEditor

/-!
# Failed system calls

A system call that returns an error is to have done nothing (`FailsCleanly`).
`ReadNull` and `WriteWraps` are the calls that fail after they have received or
sent something.
-/

namespace RvOs

def IsError (a0 : U64) : Prop := a0 = ERR_BADF ∨ a0 = ERR_FAULT ∨ a0 = ERR_NOSYS

instance (a0 : U64) : Decidable (IsError a0) := inferInstanceAs (Decidable (_ ∨ _))

/-- If the call returns an error, only `a0` and `epc` have changed. -/
def FailsCleanly (T : Translation) (frame : TrapFrame) (s : Hart) : Prop :=
  ∀ frame' s', syscallHandle T frame s = .ok frame' s' → IsError frame'.a0 →
    frame' = { frame with a0 := frame'.a0, epc := frame.epc + 4 } ∧
      s'.rx = s.rx ∧ s'.tx = s.tx ∧ s'.mem = s.mem ∧ s'.sstatus = s.sstatus

/-- `read` to a null pointer, with a line to receive. -/
def ReadNull (frame : TrapFrame) (rx : List Byte) : Prop :=
  frame.a7 = SYSCALL_READ ∧ frame.a0 = 0 ∧ frame.a1 = 0 ∧ frame.a2 ≠ 0 ∧ (lineOf frame.a2 rx).isSome

instance (frame : TrapFrame) (rx : List Byte) : Decidable (ReadNull frame rx) := inferInstanceAs (Decidable (_ ∧ _))

/-- A chunk after the first starts at address 0, while the bytes before are
readable and not all 0. -/
def Wraps (T : Translation) (buffer : U64) (n : Nat) (m : Mem) : Prop := ∃ k, 0 < k ∧ k < n ∧ k % 256 = 0 ∧
  byteAddr buffer k = 0 ∧ (∀ i < k, T.Allows .load (byteAddr buffer i)) ∧ ∃ i < k, m (T.phys (byteAddr buffer i)) ≠ 0

/-- `write` of a buffer that goes past the last address. -/
def WriteWraps (T : Translation) (frame : TrapFrame) (m : Mem) : Prop :=
  frame.a7 = SYSCALL_WRITE ∧ IsOutput frame.a0 ∧ Wraps T frame.a1 frame.a2.toNat m

end RvOs
