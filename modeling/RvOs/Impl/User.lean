import RvOs.Impl.Process
import RvOs.Impl.TrapHandler

/-!
# Entering U-mode

`UserContext` and `user_context_init` of `User.cpp`, `user_enter` of `user.S`,
and `supervisor_traps_init`.
-/

namespace RvOs

structure UserContext where
  ra : U64
  sp : U64
  gp : U64
  tp : U64
  t0 : U64
  t1 : U64
  t2 : U64
  s0 : U64
  s1 : U64
  a0 : U64
  a1 : U64
  a2 : U64
  a3 : U64
  a4 : U64
  a5 : U64
  a6 : U64
  a7 : U64
  s2 : U64
  s3 : U64
  s4 : U64
  s5 : U64
  s6 : U64
  s7 : U64
  s8 : U64
  s9 : U64
  s10 : U64
  s11 : U64
  t3 : U64
  t4 : U64
  t5 : U64
  t6 : U64
  epc : U64
  status : U64
  deriving DecidableEq

/-- The context at `a`, by the layout of the struct. -/
def contextAt (m : Mem) (a : Addr) : UserContext :=
  let word (offset : Nat) := m.read64 (a + BitVec.ofNat 64 offset)
  { ra := word 0, sp := word 8, gp := word 16, tp := word 24
    t0 := word 32, t1 := word 40, t2 := word 48, s0 := word 56, s1 := word 64
    a0 := word 72, a1 := word 80, a2 := word 88, a3 := word 96
    a4 := word 104, a5 := word 112, a6 := word 120, a7 := word 128
    s2 := word 136, s3 := word 144, s4 := word 152, s5 := word 160, s6 := word 168
    s7 := word 176, s8 := word 184, s9 := word 192, s10 := word 200, s11 := word 208
    t3 := word 216, t4 := word 224, t5 := word 232, t6 := word 240
    epc := word 248, status := word 256 }

/-- `user_context_init` with `sstatus` as it is read. -/
def userContextInit (sstatus entry stackTop arg0 arg1 : U64) : UserContext :=
  { ra := 0, sp := alignDown stackTop 16, gp := 0, tp := 0
    t0 := 0, t1 := 0, t2 := 0, s0 := 0, s1 := 0
    a0 := arg0, a1 := arg1, a2 := 0, a3 := 0
    a4 := 0, a5 := 0, a6 := 0, a7 := 0
    s2 := 0, s3 := 0, s4 := 0, s5 := 0, s6 := 0
    s7 := 0, s8 := 0, s9 := 0, s10 := 0, s11 := 0
    t3 := 0, t4 := 0, t5 := 0, t6 := 0
    epc := entry
    status :=
      let status := sstatus &&& ~~~SSTATUS_SPP
      let status := status ||| SSTATUS_SPIE
      status &&& ~~~SSTATUS_SIE }

open RiscV

/-- `user.S`. `a0` is the context, and is loaded last. -/
def userEnter : Block Unit where
  body := [
    .ld .t0 248 .a0,
    .csrw .sepc .t0,
    .ld .t0 256 .a0,
    .csrw .sstatus .t0,
    .ld .ra 0 .a0,
    .ld .sp 8 .a0,
    .ld .gp 16 .a0,
    .ld .tp 24 .a0,
    .ld .t0 32 .a0,
    .ld .t1 40 .a0,
    .ld .t2 48 .a0,
    .ld .s0 56 .a0,
    .ld .s1 64 .a0,
    .ld .a1 80 .a0,
    .ld .a2 88 .a0,
    .ld .a3 96 .a0,
    .ld .a4 104 .a0,
    .ld .a5 112 .a0,
    .ld .a6 120 .a0,
    .ld .a7 128 .a0,
    .ld .s2 136 .a0,
    .ld .s3 144 .a0,
    .ld .s4 152 .a0,
    .ld .s5 160 .a0,
    .ld .s6 168 .a0,
    .ld .s7 176 .a0,
    .ld .s8 184 .a0,
    .ld .s9 192 .a0,
    .ld .s10 200 .a0,
    .ld .s11 208 .a0,
    .ld .t3 216 .a0,
    .ld .t4 224 .a0,
    .ld .t5 232 .a0,
    .ld .t6 240 .a0,
    .ld .a0 72 .a0]
  exit := .sret

/-- `supervisor_traps_init`, but for `stvec`, which nothing here reads. -/
def supervisorTrapsInit (supervisorTrapStackTop : U64) (s : State) : State :=
  s.setCsr .sscratch supervisorTrapStackTop

end RvOs
