import Mathlib.Logic.Relation
import RvOs.Impl.User
import RvOs.Spec.TrapPath

/-!
# Runs with traps

The hart from `supervisor_traps_init` on: code, traps that interrupt it, the
handlers these call, which traps interrupt in turn, and their returns, last in
first out (`TrapStep`). `TrapReturns` is what the return from a trap is to
bring back, and `SpDiscipline` says it of every trap that can return.
-/

namespace RvOs

open RiscV

inductive Mode where
  | user
  | supervisor
  deriving DecidableEq

/-! ## The hart -/

/-- `sstatus` after a trap from the mode. -/
def takenStatus : Mode → U64 → U64
  | .user, sstatus => trapStatus sstatus &&& ~~~SSTATUS_SPP
  | .supervisor, sstatus => trapStatus sstatus

/-- A trap, up to `supervisor_trap_entry`. -/
def takeTrap (mode : Mode) (epc cause tval : U64) (s : State) : State :=
  (((s.setCsr .sstatus (takenStatus mode (s.csr .sstatus))).setCsr .sepc epc).setCsr .scause cause).setCsr .stval tval

/-- The mode that `sret` goes to. -/
def sretMode (s : State) : Mode := if s.csr .sstatus &&& SSTATUS_SPP = 0 then .user else .supervisor

/-- `sstatus` after `sret`. -/
def sretStatus (sstatus : U64) : U64 :=
  (sstatus &&& ~~~(SSTATUS_SPP ||| SSTATUS_SIE)) ||| SSTATUS_SPIE ||| ((sstatus &&& SSTATUS_SPIE) >>> 4)

def sret (s : State) : State := s.setCsr .sstatus (sretStatus (s.csr .sstatus))

/-! ## Runs -/

/-- The handler, called in `t`, returns in `t'` with `a0` and `epc` of its frame changed only. -/
structure HandlerReturns (t t' : State) : Prop where
  sp : t'.get .sp = t.get .sp
  frame : frameAt t'.mem (t.get .a0) =
    { frameAt t.mem (t.get .a0) with
      a0 := (frameAt t'.mem (t.get .a0)).a0, epc := (frameAt t'.mem (t.get .a0)).epc }

/-- A trap whose handler has not returned. -/
structure PendingTrap where
  mode : Mode
  interrupted : State
  /-- The state at `supervisor_trap_entry`. -/
  taken : State
  /-- The state its handler is called in. -/
  called : State

structure TrapState where
  mode : Mode
  state : State
  /-- The last trap first. -/
  pending : List PendingTrap

inductive TrapStep : TrapState → TrapState → Prop where
  /-- Code of any mode, outside `s_trap.S` and `supervisor_traps_init`, which alone write `sscratch`. -/
  | code {mode s s' pending} (h : s'.csr .sscratch = s.csr .sscratch) :
    TrapStep ⟨mode, s, pending⟩ ⟨mode, s', pending⟩
  | userEnter {s s'} {sstatus entry stackTop arg0 arg1 : U64}
    (hc : contextAt s.mem (s.get .a0) = userContextInit sstatus entry stackTop arg0 arg1)
    (h : run (fun _ => userEnter) id 1 () s = some s') :
    TrapStep ⟨.supervisor, s, []⟩ ⟨sretMode s', sret s', []⟩
  | trap {mode s t pending} {epc cause tval : U64}
    (h : runToCall sTrap 3 .supervisorTrapEntry (takeTrap mode epc cause tval s) = some t) :
    TrapStep ⟨mode, s, pending⟩ ⟨.supervisor, t, ⟨mode, s, takeTrap mode epc cause tval s, t⟩ :: pending⟩
  /-- The handler of the last trap returns in `s`. -/
  | ret {p s s' pending} (hh : HandlerReturns p.called s) (h : run sTrap id 2 .restore s = some s') :
    TrapStep ⟨.supervisor, s, p :: pending⟩ ⟨sretMode s', sret s', pending⟩

/-- The kernel after `supervisor_traps_init`. -/
def trapsReady (supervisorTrapStackTop : U64) (s : State) : TrapState :=
  ⟨.supervisor, supervisorTrapsInit supervisorTrapStackTop s, []⟩

variable (supervisorTrapStackTop : U64)

/-- The trap `p`, whose handler returns in `s`, goes back by an `sret` in `s'`. -/
structure TrapReturns (p : PendingTrap) (s s' : State) : Prop where
  mode : sretMode s' = p.mode
  user : sretMode s' = .user →
    s'.csr .sscratch = supervisorTrapStackTop ∧ s'.get .sp = p.interrupted.get .sp
  supervisor : sretMode s' = .supervisor →
    s'.csr .sscratch = p.interrupted.csr .sscratch ∧ s'.get .sp = p.interrupted.get .sp
  entry : .fromUser ∈ path sTrap 3 .supervisorTrapEntry p.taken ↔ p.mode = .user
  toUser : .returnToUser ∈ path sTrap 2 .restore s ↔ .fromUser ∈ path sTrap 3 .supervisorTrapEntry p.taken
  toSupervisor : .returnToSupervisor ∈ path sTrap 2 .restore s ↔
    .fromSupervisor ∈ path sTrap 3 .supervisorTrapEntry p.taken

/-- In U-mode the trap stack is in `sscratch`, from `user_enter` on, and a handler
that returns leads back to what its trap interrupted. -/
structure SpDiscipline (c : TrapState) : Prop where
  user : c.mode = .user → c.pending = [] ∧ c.state.csr .sscratch = supervisorTrapStackTop
  enter : c.pending = [] → ∀ sstatus entry stackTop arg0 arg1,
    contextAt c.state.mem (c.state.get .a0) = userContextInit sstatus entry stackTop arg0 arg1 →
    ∃ s', run (fun _ => userEnter) id 1 () c.state = some s' ∧ sretMode s' = .user ∧
      s'.csr .sscratch = supervisorTrapStackTop ∧ s'.get .sp = alignDown stackTop 16
  returns : ∀ p pending, c.pending = p :: pending → HandlerReturns p.called c.state →
    ∃ s', run sTrap id 2 .restore c.state = some s' ∧ TrapReturns supervisorTrapStackTop p c.state s'

end RvOs
