import RvOs.Spec.Strtoul
import RvOs.Spec.TrapPath
import RvOs.Spec.UserMemory

/-!
# A user program

What the kernel is for: a user program has registers, its own memory by virtual
address, and a console (`Task`). Its code runs up to a trap (`UserCode`). A
system call is one step, on its own memory, and any other trap is a panic
(`Task.next`). That is so for calls that pass the program's own memory
(`Task.Confined`).
-/

namespace RvOs

open RiscV

/-! ## Code of U-mode -/

def Access.flag : Access → U64
  | .load => PTE_R
  | .store => PTE_W

/-- The address is in a page for U-mode. -/
def Translation.isUser (T : Translation) (va : U64) : Bool :=
  match T va with
  | none => false
  | some (_, flags) => hasFlag flags PTE_U

/-- U-mode may make the access. -/
def Translation.userMay (T : Translation) (access : Access) (va : U64) : Bool :=
  match T va with
  | none => false
  | some (_, flags) => hasFlag flags PTE_U && hasFlag flags access.flag

/-- Different addresses of U-mode have different physical ones. -/
def Translation.UserInj (T : Translation) : Prop := ∀ va va' pa flags flags', T va = some (pa, flags) →
  hasFlag flags PTE_U = true → T va' = some (pa, flags') → hasFlag flags' PTE_U = true → va = va'

/-- What U-mode can get at. -/
structure UserState where
  reg : Reg → U64
  pc : U64
  /-- By virtual address, and 0 outside the pages for U-mode. -/
  mem : U64 → Byte

inductive Event where
  | next (u : UserState)
  | trap (cause tval : U64)

/-- The instructions of U-mode under the translation `T`. -/
structure UserCode (T : Translation) where
  event : UserState → Event
  zero : ∀ u u', event u = .next u' → u'.reg .zero = 0
  /-- A store that is not allowed is a trap. -/
  stores : ∀ u u' va, event u = .next u' → T.userMay .store va = false → u'.mem va = u.mem va
  /-- An instruction that is executed is in a page for U-mode. -/
  ebreak : ∀ u tval, event u = .trap 3 tval → T.isUser u.pc = true

/-! ## The program -/

structure Task extends UserState where
  /-- What the UART is to receive. -/
  rx : List Byte
  /-- What the UART has sent. -/
  tx : List Byte

/-- Code that runs on, or has stopped. -/
inductive Fate (α : Type) where
  | runs (a : α)
  | stops (why : Stop) (tx : List Byte)

def Fate.map {α β : Type} (f : α → β) : Fate α → Fate β
  | .runs a => .runs (f a)
  | .stops why tx => .stops why tx

/-- What a trap that is fatal sends. -/
def panicText : List Byte := literal "Kernel PANIC in panic_trap: Trap fatal.\n"

/-- What the exit with `status` sends. -/
def exitText (status : U64) : List Byte :=
  literal "User task exited with status " ++ hexText status ++ literal ".\n"

/-- What is sent for the keys that `editLine` takes. -/
def shown (limit : Nat) : List Byte → List Byte → List Byte
  | [], _ => []
  | c :: rx, line =>
    if line.length < limit then
      if c = 0x08 ∨ c = 0x7F then
        (if 0 < line.length then [0x08, 0x20, 0x08] else []) ++ shown limit rx line.dropLast
      else if normalize c = 0x0A then [normalize c]
      else normalize c :: shown limit rx (line ++ [normalize c])
    else []

namespace Task

variable (T : Translation) (t : Task)

/-- The bytes at `buffer`. -/
def bytes (buffer : U64) (n : Nat) : List Byte := (List.range n).map fun i => t.mem (byteAddr buffer i)

/-- A line stored at `buffer`. -/
def store (buffer : U64) (line : List Byte) : Task :=
  { t with mem := fun va => if (va - buffer).toNat < line.length then line.getD (va - buffer).toNat 0 else t.mem va }

/-- `read`, with its result. -/
def read (fd buffer length : U64) : Fate (U64 × Task) :=
  if fd ≠ 0 then .runs (ERR_BADF, t)
  else if length = 0 then .runs (0, t)
  else
    let limit := min length.toNat 256
    let tx := t.tx ++ shown limit t.rx []
    match editLine limit t.rx [] with
    | none => .stops .waiting tx
    | some (line, rx) =>
      let t := { t with rx, tx }
      if buffer = 0 then .runs (ERR_FAULT, t)
      else if ∀ i < line.length, T.userMay .store (byteAddr buffer i) = true then
        .runs (BitVec.ofNat 64 line.length, t.store buffer line)
      else .stops .panicked (tx ++ panicText)

/-- `write` of `n` bytes by chunks, with `total` as its result. -/
def send (total buffer : U64) (n : Nat) (t : Task) : Fate (U64 × Task) :=
  if n = 0 then .runs (total, t)
  else if buffer = 0 then .runs (ERR_FAULT, t)
  else if ∀ i < min n 256, T.userMay .load (byteAddr buffer i) = true then
    send total (byteAddr buffer (min n 256)) (n - min n 256)
      { t with tx := t.tx ++ (t.bytes buffer (min n 256)).filter (· ≠ 0) }
  else .stops .panicked (t.tx ++ panicText)
termination_by n

/-- `write`, with its result. -/
def write (fd buffer length : U64) : Fate (U64 × Task) :=
  if fd ≠ 1 ∧ fd ≠ 2 then .runs (ERR_BADF, t) else send T length buffer length.toNat t

/-- The system call in the registers, with its result. -/
def call : Fate (U64 × Task) :=
  if t.reg .a7 = SYSCALL_READ then t.read T (t.reg .a0) (t.reg .a1) (t.reg .a2)
  else if t.reg .a7 = SYSCALL_WRITE then t.write T (t.reg .a0) (t.reg .a1) (t.reg .a2)
  else if t.reg .a7 = SYSCALL_EXIT ∨ t.reg .a7 = SYSCALL_EXIT_GROUP then
    .stops .halted (t.tx ++ exitText (t.reg .a0))
  else .runs (ERR_NOSYS, t)

/-- After the `ecall`: the trap path does not bring `t0`, `t1` and `t2` back. -/
def resume (status a0 : U64) : Task :=
  { t with
    pc := t.pc + 4
    reg := fun r =>
      match r with
      | .a0 => a0
      | .t0 => status
      | .t1 => 0
      | .t2 => t.reg .sp
      | r => t.reg r }

/-- A trap with `status` in its frame. -/
def trap (status cause : U64) : Fate Task :=
  if cause = 8 then (t.call T).map fun (a0, t) => t.resume status a0
  else .stops .panicked (t.tx ++ panicText)

variable {T}

/-- The next step. -/
def next (code : UserCode T) (status : U64) : Fate Task :=
  match code.event t.toUserState with
  | .next u => .runs { t with toUserState := u }
  | .trap cause _ => t.trap T status cause

/-! ## Memory that is passed to the kernel -/

/-- The bytes of memory that the system call has to access, and how. -/
def Accesses (access : Access) (va : U64) : Prop :=
  (t.reg .a7 = SYSCALL_WRITE ∧ IsOutput (t.reg .a0) ∧ access = .load ∧
    ∃ i < (t.reg .a2).toNat, va = byteAddr (t.reg .a1) i) ∨
  (t.reg .a7 = SYSCALL_READ ∧ t.reg .a0 = 0 ∧ t.reg .a2 ≠ 0 ∧ access = .store ∧
    ∃ line, lineOf (t.reg .a2) t.rx = some line ∧ ∃ i < line.length, va = byteAddr (t.reg .a1) i)

variable (T) in
/-- What the call has to access is the program's own memory, or out of the kernel's reach too. -/
def Confined : Prop := ∀ access va, t.Accesses access va → T.Allows access va → T.userMay access va = true

end Task

/-! ## Runs -/

variable {T : Translation}

inductive TaskStep (code : UserCode T) (status : U64) : Fate Task → Fate Task → Prop
  | next (t : Task) : TaskStep code status (.runs t) (t.next code status)

/-- The next step is no system call that passes memory of the kernel. -/
def TaskOk (code : UserCode T) : Fate Task → Prop
  | .runs t => ∀ tval, code.event t.toUserState = .trap 8 tval → t.Confined T
  | .stops .. => True

end RvOs
