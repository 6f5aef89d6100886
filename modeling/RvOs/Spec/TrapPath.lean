import RvOs.Impl.SupervisorTrap

/-!
# What a supervisor trap is to keep

`Handled` is what the trap path relies on of `supervisor_trap_handler`, and
`Transparent` what the interrupted program relies on of the whole path.
-/

namespace RvOs

open RiscV

/-- A U-mode `ecall`. -/
def TrapFrame.isUserEcall (f : TrapFrame) : Bool := f.status &&& SSTATUS_SPP = 0 && f.cause = 8

/-- The handler changes `a0` and `epc` of a frame only, and `a0` only for an `ecall`. -/
structure FrameHandled (f f' : TrapFrame) : Prop where
  frame : f' = { f with a0 := f'.a0, epc := f'.epc }
  a0 : ¬ f.isUserEcall → f'.a0 = f.a0

/-- The handler, called in `t`, returns in `t'`: the stack pointer is back, and
the frame it got is handled. -/
structure Handled (t t' : State) : Prop where
  sp : t'.get .sp = t.get .sp
  frame : FrameHandled (frameAt t.mem (t.get .a0)) (frameAt t'.mem (t.get .a0))

/-- A handler given by what it does to the frame. -/
def onFrame (f : TrapFrame → TrapFrame) (t : State) : State :=
  let a := t.get .a0
  let frame := f (frameAt t.mem a)
  { t with mem := (t.mem.write64 (a + BitVec.ofNat 64 72) frame.a0).write64 (a + BitVec.ofNat 64 248) frame.epc }

/-- The trap at `s`, whose handler is called in `t` and returns in `t'`, ends in
`s'` with every register as it was, but for the result of an `ecall` in `a0`. -/
structure Transparent (s t t' s' : State) : Prop where
  reg : ∀ r, r ≠ .a0 → s'.get r = s.get r
  result : (frameAt t.mem (t.get .a0)).isUserEcall → s'.get .a0 = (frameAt t'.mem (t.get .a0)).a0
  a0 : ¬ (frameAt t.mem (t.get .a0)).isUserEcall → s'.get .a0 = s.get .a0

end RvOs
