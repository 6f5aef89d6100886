import RvOs.Framework.Exec
import RvOs.Impl.TrapHandler

/-!
# User memory and system calls

Which bytes a system call reaches under a translation (`HasToAccess`), and what
is asked of `write` (`WriteConfidential`, `WriteDelivers`) and of `read`
(`ReadIntegrity`). `editLine` is the line that `read` takes from its input. A
breakpoint in user text is to be passed over (`Resumes`).
-/

namespace RvOs

open Exec

namespace Translation

variable (T : Translation)

/-- S-mode with SUM may make the access. -/
def Allows (access : Access) (va : U64) : Prop := ∃ pa fl, T va = some (pa, fl) ∧ sModeAllows true fl access

/-- The physical address of a mapped address. -/
def phys (va : U64) : Addr := ((T va).map Prod.fst).getD 0

/-- The byte at the physical address `pa` is in a page with U and `flag`. -/
def InUserPage (flag : U64) (pa : Addr) : Prop := ∃ va fl, T va = some (pa, fl) ∧ hasFlag fl PTE_U ∧ hasFlag fl flag

end Translation

/-- The address of byte `i` of a buffer. -/
def byteAddr (buffer : U64) (i : Nat) : U64 := buffer + BitVec.ofNat 64 i

/-! ## `write` -/

/-- The bytes of a chunk and of those before are readable, and no chunk starts at
address 0: byte `i` of `length` is sent. -/
def Sent (T : Translation) (buffer : U64) (length i : Nat) : Prop :=
  i < length ∧ ∀ j < length, j / 256 ≤ i / 256 →
    T.Allows .load (byteAddr buffer j) ∧ byteAddr buffer (256 * (j / 256)) ≠ 0

/-- The file descriptors that `write` writes to. -/
def IsOutput (fd : U64) : Prop := fd = 1 ∨ fd = 2

/-- What an observer sees of a call: its outcome and the UART's output. -/
def observe {α : Type} (r : EStateM.Result Stop Hart α) : Except Stop α × List Byte := (outcome r, (final r).tx)

/-- Memories with the same bytes in pages with U and R. -/
def AgreeOnUser (T : Translation) (m m' : Mem) : Prop := ∀ pa, T.InUserPage PTE_R pa → m pa = m' pa

/-- `write` shows nothing but readable user memory. -/
def WriteConfidential (T : Translation) (fd buffer length : U64) : Prop :=
  ∀ s m', AgreeOnUser T s.mem m' →
    observe (syscallWrite T fd buffer length s) = observe (syscallWrite T fd buffer length { s with mem := m' })

/-- The bytes at `buffer` that a copy of `n` finds. -/
def userBytes (T : Translation) (m : Mem) (buffer : U64) (n : Nat) : List Byte :=
  (List.range n).map fun i => m (T.phys (byteAddr buffer i))

/-- The buffer is readable user memory. -/
def UserReadable (T : Translation) (buffer length : U64) : Prop :=
  ∀ i < length.toNat, ∃ pa fl, T (byteAddr buffer i) = some (pa, fl) ∧ hasFlag fl PTE_U ∧ hasFlag fl PTE_R

/-- `write` sends the bytes of the buffer, in order, and returns their number. -/
def WriteDelivers (T : Translation) (fd buffer length : U64) (s : Hart) : Prop :=
  ∃ s' sent, syscallWrite T fd buffer length s = .ok length s' ∧ s'.tx = s.tx ++ sent ∧
    sent = userBytes T s.mem buffer length.toNat ∧ sent.length = length.toNat

/-! ## `read` -/

def normalize (c : Byte) : Byte := if c = 0x0D then 0x0A else c

/-- A line of at most `limit` characters, from what is received after `line`;
with it, what is left to receive. -/
def editLine (limit : Nat) : List Byte → List Byte → Option (List Byte × List Byte)
  | [], line => if line.length < limit then none else some (line, [])
  | c :: rx, line =>
    if line.length < limit then
      if c = 0x08 ∨ c = 0x7F then editLine limit rx line.dropLast
      else if normalize c = 0x0A then some (line ++ [normalize c], rx)
      else editLine limit rx (line ++ [normalize c])
    else some (line, c :: rx)

/-- The line that `read` of `length` bytes takes. -/
def lineOf (length : U64) (rx : List Byte) : Option (List Byte) :=
  (editLine (min length.toNat 256) rx []).map Prod.fst

/-- A call of `read` gets as far as storing `line` to user memory. -/
def Delivers (fd buffer length : U64) (rx line : List Byte) : Prop :=
  fd = 0 ∧ length ≠ 0 ∧ buffer ≠ 0 ∧ lineOf length rx = some line

/-- Memory after the first `n` stores of a copy of `src`. -/
def storedMem (T : Translation) (m : Mem) (buffer : U64) (src : List Byte) : Nat → Mem
  | 0 => m
  | n + 1 => (storedMem T m buffer src n).write8 (T.phys (byteAddr buffer n)) (src.getD n 0)

/-- Byte `i` of a line is stored: those up to it are in reach. -/
def Stored (T : Translation) (buffer : U64) (i : Nat) : Prop := ∀ j ≤ i, T.Allows .store (byteAddr buffer j)

/-- The byte of memory is one of the buffer that a user page has, of the first
`n` if all of these are in reach. -/
def InUserBuffer (T : Translation) (buffer : U64) (n : Nat) (pa : Addr) : Prop :=
  ∃ i, ((∀ j < n, T.Allows .store (byteAddr buffer j)) → i < n) ∧
    ∃ fl, T (byteAddr buffer i) = some (pa, fl) ∧ hasFlag fl PTE_U ∧ hasFlag fl PTE_W

/-- The bytes of memory `read` changes are in the part of the buffer it returns
the length of, and in pages with U and W. -/
def ReadIntegrity (T : Translation) (fd buffer length : U64) (rx : List Byte) : Prop :=
  ∀ s : Hart, s.rx = rx →
    let r := syscallRead T fd buffer length s
    ∀ pa, (final r).mem pa ≠ s.mem pa → ∃ i, (∀ v : U64, outcome r = .ok v → i < v.toNat) ∧
      ∃ fl, T (byteAddr buffer i) = some (pa, fl) ∧ hasFlag fl PTE_U ∧ hasFlag fl PTE_W

/-! ## Both -/

/-- The bytes of user memory a system call has to access, and how. -/
def HasToAccess (frame : TrapFrame) (rx : List Byte) (access : Access) (va : U64) : Prop :=
  (frame.a7 = SYSCALL_WRITE ∧ IsOutput frame.a0 ∧ access = .load ∧
    ∃ i < frame.a2.toNat, va = byteAddr frame.a1 i) ∨
  (frame.a7 = SYSCALL_READ ∧ frame.a0 = 0 ∧ frame.a2 ≠ 0 ∧ access = .store ∧
    ∃ line, lineOf frame.a2 rx = some line ∧ ∃ i < line.length, va = byteAddr frame.a1 i)

/-- Bytes out of reach come after a null pointer check that fails. -/
def WriteCaught (T : Translation) (buffer : U64) (length : Nat) : Prop :=
  ∀ i < length, ¬ T.Allows .load (byteAddr buffer i) → ∃ j ≤ i / 256, byteAddr buffer (256 * j) = 0

/-! ## Breakpoints -/

/-- The size of the instruction that starts with a halfword. -/
def instructionSize (firstHalf : BitVec 16) : U64 := if firstHalf.extractLsb' 0 2 = 0b11 then 4 else 2

/-- A breakpoint in a text page of a user program, taken with SUM clear. -/
structure UserBreakpoint (T : Translation) (frame : TrapFrame) (s : Hart) : Prop where
  user : frame.status &&& SSTATUS_SPP = 0
  cause : frame.cause = 3
  sum : hasFlag s.sstatus SSTATUS_SUM = false
  text : ∃ pa fl, T frame.epc = some (pa, fl) ∧ hasFlag fl PTE_R ∧ hasFlag fl PTE_X ∧ hasFlag fl PTE_U

/-- The handler returns with `epc` at the next instruction and the frame as it was. -/
def Resumes (T : Translation) (frame : TrapFrame) (s : Hart) : Prop :=
  let pa := T.phys frame.epc
  outcome (trapHandler T frame s) = .ok { frame with epc := frame.epc + instructionSize (s.mem (pa + 1) ++ s.mem pa) }

end RvOs
