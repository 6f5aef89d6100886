import RvOs.Impl.MachineTrap

/-!
# What a machine trap is to keep

The frame that `machine_trap_handler` gets is what was interrupted
(`Interrupted`), and after a handler that does not change it everything is as
it was (`Resumed`).
-/

namespace RvOs

open RiscV

/-- The field of a register. -/
def TrapFrame.reg (f : TrapFrame) : Reg → U64
  | .zero => 0
  | .ra => f.ra | .sp => f.sp | .gp => f.gp | .tp => f.tp
  | .t0 => f.t0 | .t1 => f.t1 | .t2 => f.t2 | .s0 => f.s0 | .s1 => f.s1
  | .a0 => f.a0 | .a1 => f.a1 | .a2 => f.a2 | .a3 => f.a3
  | .a4 => f.a4 | .a5 => f.a5 | .a6 => f.a6 | .a7 => f.a7
  | .s2 => f.s2 | .s3 => f.s3 | .s4 => f.s4 | .s5 => f.s5 | .s6 => f.s6
  | .s7 => f.s7 | .s8 => f.s8 | .s9 => f.s9 | .s10 => f.s10 | .s11 => f.s11
  | .t3 => f.t3 | .t4 => f.t4 | .t5 => f.t5 | .t6 => f.t6

/-- The frame of a trap at `s`. -/
structure Interrupted (s : MState) (f : TrapFrame) : Prop where
  reg : ∀ r, f.reg r = s.get r
  epc : f.epc = s.mcsr .mepc
  status : f.status = s.mcsr .mstatus
  cause : f.cause = s.mcsr .mcause
  tval : f.tval = s.mcsr .mtval

/-- The handler, called in `t`, returns in `t'` with its frame unchanged. -/
structure FrameKept (t t' : MState) : Prop where
  sp : t'.get .sp = t.get .sp
  frame : frameAt t'.mem (t.get .a0) = frameAt t.mem (t.get .a0)

/-- A trap at `s` has ended in `s'`. -/
structure Resumed (s s' : MState) : Prop where
  reg : ∀ r, s'.get r = s.get r
  epc : s'.mcsr .mepc = s.mcsr .mepc
  status : s'.mcsr .mstatus = s.mcsr .mstatus
  scratch : s'.mcsr .mscratch = s.mcsr .mscratch

/-- A trap at `s` is saved, and is restored whatever else the handler changes. -/
def MachineTrapKept (s : MState) : Prop :=
  let t := execAllM machineTrapEntry s
  Interrupted s (frameAt t.mem (t.get .a0)) ∧ ∀ t', FrameKept t t' → Resumed s (execAllM machineTrapExit t')

end RvOs
