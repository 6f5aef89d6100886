import RvOs.Spec.NoPanic
import RvOs.Spec.Task
import RvOs.Spec.TrapRuns

/-!
# Runs of a user program

The hart from the first `sret` to U-mode on: instructions of U-mode, and traps
through `s_trap.S`, the handler and back (`UserStep`), under the page tables as
they are in memory. `UserSpace` is what the runs rest on, `UserReady` what they
keep, and `UserHart.task` what they are to the user program.
-/

namespace RvOs

open Exec RiscV

structure UserHart extends State where
  mode : Mode
  pc : U64
  rx : List Byte
  tx : List Byte

/-- What the user program sees. -/
def UserHart.task (T : Translation) (m : UserHart) : Task where
  reg := m.get
  pc := m.pc
  mem va :=
    match T va with
    | none => 0
    | some (pa, flags) => if hasFlag flags PTE_U then m.mem pa else 0
  rx := m.rx
  tx := m.tx

/-! ## Steps -/

/-- An instruction of U-mode that leads to `u`. -/
structure Executes (T : Translation) (m : UserHart) (u : UserState) (m' : UserHart) : Prop where
  mode : m'.mode = .user
  pc : m'.pc = u.pc
  reg : ∀ r, m'.get r = u.reg r
  csr : m'.csr = m.csr
  user : ∀ va pa flags, T va = some (pa, flags) → hasFlag flags PTE_U = true → hasFlag flags PTE_W = true →
    m'.mem pa = u.mem va
  rest : ∀ pa, ¬ T.InUserPage PTE_W pa → m'.mem pa = m.mem pa
  rx : m'.rx = m.rx
  tx : m'.tx = m.tx

/-- The state `h` of memory and console is that of the handler, which leaves the
frame `f` to the code after the call, in `t'`. Its own stack is `stack`. -/
structure HandlerLeaves (stack : Addr → Prop) (t : State) (f : TrapFrame) (h : Hart) (t' : State) : Prop where
  sp : t'.get .sp = t.get .sp
  sscratch : t'.csr .sscratch = t.csr .sscratch
  frame : frameAt t'.mem (t.get .a0) = f
  mem : ∀ a, ¬ stack a → t'.mem a = h.mem a

section Step

variable (root : Addr)

/-- The handler called in `t`. -/
def calledHandler (t : State) : Exec TrapFrame :=
  supervisorTrapHandler (.ofTables t.mem root) (frameAt t.mem (t.get .a0))

/-- Memory and console for the handler called in `t`. -/
def UserHart.called (m : UserHart) (t : State) : Hart where
  mem := t.mem
  sstatus := t.csr .sstatus
  rx := m.rx
  tx := m.tx

variable (stack : Addr → Prop) (code : ∀ T, UserCode T)

/-- The instruction at the program counter. -/
def UserHart.event (m : UserHart) : Event :=
  let T := Translation.ofTables m.mem root
  (code T).event (m.task T).toUserState

/-- A trap of U-mode calls the handler in `t`. -/
structure TrapCalls (m : UserHart) (t : State) : Prop where
  mode : m.mode = .user
  call : ∃ cause tval, m.event root code = .trap cause tval ∧
    runToCall sTrap 3 .supervisorTrapEntry (takeTrap .user m.pc cause tval m.toState) = some t

inductive UserStep : Fate UserHart → Fate UserHart → Prop
  | instruction {m m' : UserHart} {u : UserState} (hm : m.mode = .user) (hu : m.event root code = .next u)
      (h : Executes (.ofTables m.mem root) m u m') : UserStep (.runs m) (.runs m')
  | returns {m : UserHart} {t t' s' : State} {f : TrapFrame} {h : Hart} (ht : TrapCalls root code m t)
      (hh : calledHandler root t (m.called t) = .ok f h) (hl : HandlerLeaves stack t f h t')
      (hr : run sTrap id 2 .restore t' = some s') :
      UserStep (.runs m)
        (.runs { toState := sret s', mode := sretMode s', pc := s'.csr .sepc, rx := h.rx, tx := h.tx })
  | stops {m : UserHart} {t : State} {kernel : TrapFrame} {n : Nat} {why : Stop} {h : Hart}
      (ht : TrapCalls root code m t)
      (hh : runTrap (.ofTables t.mem root) kernel (n + 1) (frameAt t.mem (t.get .a0)) (m.called t) = .error why h) :
      UserStep (.runs m) (.stops why h.tx)
  /-- A handler that stores over its own stack or the tables may do anything. -/
  | wild {m : UserHart} {t : State} {x : Fate UserHart} (ht : TrapCalls root code m t)
      (hh : ¬ TrapSpares root stack (frameAt t.mem (t.get .a0)) (m.called t)) : UserStep (.runs m) x

end Step

/-! ## Runs -/

/-- Memories that differ in pages that U-mode may write and in `stack` only. -/
def SameKernel (T : Translation) (stack : Addr → Prop) (m m' : Mem) : Prop :=
  ∀ pa, ¬ T.InUserPage PTE_W pa → ¬ stack pa → m' pa = m pa

/-- The address space of a user program, with the kernel's stack out of its reach. -/
structure UserSpace (root : Addr) (stack : Addr → Prop) (stackTop : U64) (T : Translation) (m : Mem) : Prop where
  translation : ∀ m', SameKernel T stack m m' → Translation.ofTables m' root = T
  inj : T.UserInj
  apart : ∀ va pa flags, T va = some (pa, flags) → hasFlag flags PTE_U = true → ¬ stack pa
  frame : ∀ a : Addr, (a - (stackTop - 288)).toNat < 288 → stack a

/-- `sstatus` in U-mode, as an `sret` leaves it. -/
structure UserStatus (status : U64) : Prop where
  taken : sretStatus (takenStatus .user status) = status
  sum : hasFlag (takenStatus .user status) SSTATUS_SUM = false

/-- U-mode, with memory of the kernel as it was in `m₀`. -/
structure UserReady (stack : Addr → Prop) (stackTop : U64) (T : Translation) (m₀ : Mem) (status : U64)
    (m : UserHart) : Prop where
  mode : m.mode = .user
  sscratch : m.csr .sscratch = stackTop
  sstatus : m.csr .sstatus = status
  mem : SameKernel T stack m₀ m.mem

/-- It is `UserReady` unless it has stopped. -/
def UserInv (stack : Addr → Prop) (stackTop : U64) (T : Translation) (m₀ : Mem) (status : U64) :
    Fate UserHart → Prop
  | .runs m => UserReady stack stackTop T m₀ status m
  | .stops .. => True

end RvOs
