import RvOs.Framework.MachineMode
import RvOs.Impl.SupervisorTrap

/-!
# Machine trap entry

`m_trap.S` before and after the call of `machine_trap_handler`, which panics
and so does not return yet, and `machine_traps_init`.
-/

namespace RvOs

open RiscV

/-- `m_trap.S` up to the call. -/
def machineTrapEntry : List MInstr := [
  .csrrw .sp .mscratch .sp,
  .base (.addi .sp .sp (-288)),
  .base (.sd .ra 0 .sp),
  .base (.sd .gp 16 .sp),
  .base (.sd .tp 24 .sp),
  .base (.sd .t0 32 .sp),
  .base (.sd .t1 40 .sp),
  .base (.sd .t2 48 .sp),
  .base (.sd .s0 56 .sp),
  .base (.sd .s1 64 .sp),
  .base (.sd .a0 72 .sp),
  .base (.sd .a1 80 .sp),
  .base (.sd .a2 88 .sp),
  .base (.sd .a3 96 .sp),
  .base (.sd .a4 104 .sp),
  .base (.sd .a5 112 .sp),
  .base (.sd .a6 120 .sp),
  .base (.sd .a7 128 .sp),
  .base (.sd .s2 136 .sp),
  .base (.sd .s3 144 .sp),
  .base (.sd .s4 152 .sp),
  .base (.sd .s5 160 .sp),
  .base (.sd .s6 168 .sp),
  .base (.sd .s7 176 .sp),
  .base (.sd .s8 184 .sp),
  .base (.sd .s9 192 .sp),
  .base (.sd .s10 200 .sp),
  .base (.sd .s11 208 .sp),
  .base (.sd .t3 216 .sp),
  .base (.sd .t4 224 .sp),
  .base (.sd .t5 232 .sp),
  .base (.sd .t6 240 .sp),
  .csrr .t0 .mscratch,
  .base (.sd .t0 8 .sp),
  .csrr .t0 .mepc,
  .base (.sd .t0 248 .sp),
  .csrr .t0 .mstatus,
  .base (.sd .t0 256 .sp),
  .csrr .t0 .mcause,
  .base (.sd .t0 264 .sp),
  .csrr .t0 .mtval,
  .base (.sd .t0 272 .sp),
  .base (.mv .a0 .sp)]

/-- `m_trap.S` after the call, up to `mret`. -/
def machineTrapExit : List MInstr := [
  .base (.ld .t0 248 .sp),
  .csrw .mepc .t0,
  .base (.ld .t0 256 .sp),
  .csrw .mstatus .t0,
  .base (.ld .ra 0 .sp),
  .base (.ld .gp 16 .sp),
  .base (.ld .tp 24 .sp),
  .base (.ld .t0 32 .sp),
  .base (.ld .t1 40 .sp),
  .base (.ld .t2 48 .sp),
  .base (.ld .s0 56 .sp),
  .base (.ld .s1 64 .sp),
  .base (.ld .a0 72 .sp),
  .base (.ld .a1 80 .sp),
  .base (.ld .a2 88 .sp),
  .base (.ld .a3 96 .sp),
  .base (.ld .a4 104 .sp),
  .base (.ld .a5 112 .sp),
  .base (.ld .a6 120 .sp),
  .base (.ld .a7 128 .sp),
  .base (.ld .s2 136 .sp),
  .base (.ld .s3 144 .sp),
  .base (.ld .s4 152 .sp),
  .base (.ld .s5 160 .sp),
  .base (.ld .s6 168 .sp),
  .base (.ld .s7 176 .sp),
  .base (.ld .s8 184 .sp),
  .base (.ld .s9 192 .sp),
  .base (.ld .s10 200 .sp),
  .base (.ld .s11 208 .sp),
  .base (.ld .t3 216 .sp),
  .base (.ld .t4 224 .sp),
  .base (.ld .t5 232 .sp),
  .base (.ld .t6 240 .sp),
  .base (.ld .t1 8 .sp),
  .base (.addi .sp .sp 288),
  .csrw .mscratch .sp,
  .base (.mv .sp .t1)]

/-- `machine_traps_init`, but for `mtvec`, which nothing here reads. -/
def machineTrapsInit (machineTrapStackTop : U64) (s : MState) : MState :=
  { s with mcsr := Function.update s.mcsr .mscratch machineTrapStackTop }

end RvOs
