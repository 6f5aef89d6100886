import RvOs.Framework.RiscV
import RvOs.Impl.Allocator

/-!
# Supervisor trap entry

`TrapFrame` of `Traps.hpp` and `s_trap.S`, a block for each label and one for
the code after the call of `supervisor_trap_handler`.
-/

namespace RvOs

structure TrapFrame where
  ra : U64
  sp : U64
  gp : U64
  tp : U64
  t0 : U64
  t1 : U64
  t2 : U64
  s0 : U64
  s1 : U64
  a0 : U64
  a1 : U64
  a2 : U64
  a3 : U64
  a4 : U64
  a5 : U64
  a6 : U64
  a7 : U64
  s2 : U64
  s3 : U64
  s4 : U64
  s5 : U64
  s6 : U64
  s7 : U64
  s8 : U64
  s9 : U64
  s10 : U64
  s11 : U64
  t3 : U64
  t4 : U64
  t5 : U64
  t6 : U64
  epc : U64
  status : U64
  cause : U64
  tval : U64
  deriving DecidableEq

/-- The frame at `a`, by the layout of the struct. -/
def frameAt (m : Mem) (a : Addr) : TrapFrame :=
  let word (offset : Nat) := m.read64 (a + BitVec.ofNat 64 offset)
  { ra := word 0, sp := word 8, gp := word 16, tp := word 24
    t0 := word 32, t1 := word 40, t2 := word 48, s0 := word 56, s1 := word 64
    a0 := word 72, a1 := word 80, a2 := word 88, a3 := word 96
    a4 := word 104, a5 := word 112, a6 := word 120, a7 := word 128
    s2 := word 136, s3 := word 144, s4 := word 152, s5 := word 160, s6 := word 168
    s7 := word 176, s8 := word 184, s9 := word 192, s10 := word 200, s11 := word 208
    t3 := word 216, t4 := word 224, t5 := word 232, t6 := word 240
    epc := word 248, status := word 256, cause := word 264, tval := word 272 }

def SSTATUS_SPP : U64 := 1 <<< 8

open RiscV

inductive TrapLabel where
  | supervisorTrapEntry
  | fromSupervisor
  | fromUser
  | buildFrame
  /-- After the call. -/
  | restore
  | returnToSupervisor
  | returnToUser

def supervisorTrapEntry : Block TrapLabel where
  body := [
    .csrr .t0 .sstatus,
    .andi .t1 .t0 0x100]
  exit := .beqz .t1 .fromUser .fromSupervisor

def fromSupervisor : Block TrapLabel where
  body := [.mv .t2 .sp]
  exit := .goto .buildFrame

def fromUser : Block TrapLabel where
  body := [
    .csrrw .sp .sscratch .sp,
    .csrr .t2 .sscratch]
  exit := .goto .buildFrame

def buildFrame : Block TrapLabel where
  body := [
    .addi .sp .sp (-288),
    .sd .ra 0 .sp,
    .sd .t2 8 .sp,
    .sd .gp 16 .sp,
    .sd .tp 24 .sp,
    .sd .t0 32 .sp,
    .sd .t1 40 .sp,
    .sd .t2 48 .sp,
    .sd .s0 56 .sp,
    .sd .s1 64 .sp,
    .sd .a0 72 .sp,
    .sd .a1 80 .sp,
    .sd .a2 88 .sp,
    .sd .a3 96 .sp,
    .sd .a4 104 .sp,
    .sd .a5 112 .sp,
    .sd .a6 120 .sp,
    .sd .a7 128 .sp,
    .sd .s2 136 .sp,
    .sd .s3 144 .sp,
    .sd .s4 152 .sp,
    .sd .s5 160 .sp,
    .sd .s6 168 .sp,
    .sd .s7 176 .sp,
    .sd .s8 184 .sp,
    .sd .s9 192 .sp,
    .sd .s10 200 .sp,
    .sd .s11 208 .sp,
    .sd .t3 216 .sp,
    .sd .t4 224 .sp,
    .sd .t5 232 .sp,
    .sd .t6 240 .sp,
    .csrr .t3 .sepc,
    .sd .t3 248 .sp,
    .csrr .t3 .sstatus,
    .sd .t3 256 .sp,
    .csrr .t3 .scause,
    .sd .t3 264 .sp,
    .csrr .t3 .stval,
    .sd .t3 272 .sp,
    .mv .a0 .sp]
  exit := .call .restore

def restore : Block TrapLabel where
  body := [
    .ld .t0 248 .sp,
    .csrw .sepc .t0,
    .ld .t0 256 .sp,
    .csrw .sstatus .t0,
    .ld .t0 256 .sp,
    .andi .t1 .t0 0x100,
    .ld .ra 0 .sp,
    .ld .gp 16 .sp,
    .ld .tp 24 .sp,
    .ld .t0 32 .sp,
    .ld .t1 40 .sp,
    .ld .t2 48 .sp,
    .ld .s0 56 .sp,
    .ld .s1 64 .sp,
    .ld .a0 72 .sp,
    .ld .a1 80 .sp,
    .ld .a2 88 .sp,
    .ld .a3 96 .sp,
    .ld .a4 104 .sp,
    .ld .a5 112 .sp,
    .ld .a6 120 .sp,
    .ld .a7 128 .sp,
    .ld .s2 136 .sp,
    .ld .s3 144 .sp,
    .ld .s4 152 .sp,
    .ld .s5 160 .sp,
    .ld .s6 168 .sp,
    .ld .s7 176 .sp,
    .ld .s8 184 .sp,
    .ld .s9 192 .sp,
    .ld .s10 200 .sp,
    .ld .s11 208 .sp,
    .ld .t3 216 .sp,
    .ld .t4 224 .sp,
    .ld .t5 232 .sp,
    .ld .t6 240 .sp,
    .ld .t2 8 .sp,
    .addi .sp .sp 288,
    .andi .t1 .t0 0x100]
  exit := .beqz .t1 .returnToUser .returnToSupervisor

def returnToSupervisor : Block TrapLabel where
  body := [.mv .sp .t2]
  exit := .sret

def returnToUser : Block TrapLabel where
  body := [
    .csrw .sscratch .sp,
    .mv .sp .t2]
  exit := .sret

/-- `s_trap.S`. -/
def sTrap : Program TrapLabel
  | .supervisorTrapEntry => supervisorTrapEntry
  | .fromSupervisor => fromSupervisor
  | .fromUser => fromUser
  | .buildFrame => buildFrame
  | .restore => restore
  | .returnToSupervisor => returnToSupervisor
  | .returnToUser => returnToUser

end RvOs
