import RvOs.Impl.SupervisorTrap
import RvOs.Impl.Uart

/-!
# System calls

`Syscall.cpp`. User pointers are accessed by S-mode through the translation
`T` in force, which no system call changes; a page fault is the `Stop` of the
access. The local arrays of a call are lists, and results are 64-bit words as
in `frame->a0`.
-/

namespace RvOs

def SSTATUS_SUM : U64 := 1 <<< 18

def ERR_BADF : U64 := -9
def ERR_FAULT : U64 := -14
def ERR_NOSYS : U64 := -38

def SYSCALL_READ : U64 := 63
def SYSCALL_WRITE : U64 := 64
def SYSCALL_EXIT : U64 := 93
def SYSCALL_EXIT_GROUP : U64 := 94

section Access

variable (T : Translation)

/-- The physical address of an access by S-mode, `none` for a page fault. -/
def sModeAddr (sstatus : U64) (access : Access) (virtualAddress : U64) : Option Addr :=
  match T virtualAddress with
  | none => none
  | some (pa, flags) => if sModeAllows (hasFlag sstatus SSTATUS_SUM) flags access then some pa else none

def load8 (virtualAddress : U64) : Exec Byte := fun s =>
  match sModeAddr T s.sstatus .load virtualAddress with
  | none => .error (.fault .load virtualAddress) s
  | some pa => .ok (s.mem pa) s

/-- A load of a halfword, which is aligned. -/
def load16 (virtualAddress : U64) : Exec (BitVec 16) := fun s =>
  match sModeAddr T s.sstatus .load virtualAddress with
  | none => .error (.fault .load virtualAddress) s
  | some pa => .ok (s.mem (pa + 1) ++ s.mem pa) s

def store8 (virtualAddress : U64) (value : Byte) : Exec Unit := fun s =>
  match sModeAddr T s.sstatus .store virtualAddress with
  | none => .error (.fault .store virtualAddress) s
  | some pa => .ok () { s with mem := s.mem.write8 pa value }

end Access

variable (T : Translation)

/-- The first `n` iterations of the loop of `copy_from_user`. -/
def loadBytes (userSrc : U64) : Nat → Exec (List Byte)
  | 0 => pure []
  | n + 1 => do
    let out ← loadBytes userSrc n
    let b ← load8 T (userSrc + BitVec.ofNat 64 n)
    return out ++ [b]

/-- `copy_from_user` into an array of the caller: the bytes copied, `none` where it returns false. -/
def copyFromUser (userSrc size : U64) : Exec (Option (List Byte)) :=
  if userSrc = 0 ∧ size ≠ 0 then pure none
  else do
    let oldStatus ← csrReadSstatus
    csrWriteSstatus (oldStatus ||| SSTATUS_SUM)
    let out ← loadBytes T userSrc size.toNat
    csrWriteSstatus oldStatus
    return some out

/-- The first `n` iterations of the loop of `copy_to_user`. -/
def storeBytes (userDst : U64) (src : List Byte) : Nat → Exec Unit
  | 0 => pure ()
  | n + 1 => do
    storeBytes userDst src n
    store8 T (userDst + BitVec.ofNat 64 n) (src.getD n 0)

/-- `copy_to_user` from an array of the caller. -/
def copyToUser (userDst : U64) (src : List Byte) (size : U64) : Exec Bool :=
  if userDst = 0 ∧ size ≠ 0 then pure false
  else do
    let oldStatus ← csrReadSstatus
    csrWriteSstatus (oldStatus ||| SSTATUS_SUM)
    storeBytes T userDst src size.toNat
    csrWriteSstatus oldStatus
    return true

/-- `sizeof(temp)`. -/
def tempSize : U64 := 256

/-- The loop of `syscall_write` over a chunk: each byte, as a string of one character. -/
def putBytes : List Byte → Exec Unit
  | [] => pure ()
  | b :: temp => do
    uartPuts [b, 0]
    putBytes temp

def writeChunk (length : U64) : U64 := if length < tempSize then length else tempSize

theorem writeChunk_lt {length : U64} (h : 0 < length) : (length - writeChunk length).toNat < length.toNat := by
  have hl : 0 < length.toNat := h
  rw [writeChunk]
  split
  · rw [BitVec.sub_self]
    exact hl
  · rename_i h'
    have : 256 ≤ length.toNat := Nat.le_of_not_lt h'
    rw [BitVec.toNat_sub, show tempSize.toNat = 256 from rfl]
    omega

/-- The loop of `syscall_write`. -/
def writeLoop (buffer length totalWritten : U64) : Exec U64 :=
  if _h : 0 < length then do
    let chunk := writeChunk length
    match ← copyFromUser T buffer chunk with
    | none => return ERR_FAULT
    | some temp =>
      putBytes temp
      writeLoop (buffer + chunk) (length - chunk) (totalWritten + chunk)
  else return totalWritten
termination_by length.toNat
decreasing_by exact writeChunk_lt _h

def syscallWrite (fd buffer length : U64) : Exec U64 :=
  if fd ≠ 1 ∧ fd ≠ 2 then return ERR_BADF
  else if length = 0 then return 0
  else writeLoop T buffer length 0

/-- The loop of `syscall_read`, with `temp` up to `total_read`. Every iteration
receives a byte, so `fuel` above what the UART is to receive is enough. -/
def readLoop (length : U64) : Nat → List Byte → Exec (List Byte)
  | 0, _ => throw .waiting
  | fuel + 1, temp =>
    if temp.length < length.toNat then do
      let c ← uartGetc
      let c : Byte := if c = 0x0D then 0x0A else c
      if c = 0x08 ∨ c = 0x7F then
        if 0 < temp.length then
          uartPutc 0x08
          uartPutc 0x20
          uartPutc 0x08
          readLoop length fuel temp.dropLast
        else readLoop length fuel temp
      else
        uartPutc c
        if c = 0x0A then return temp ++ [c] else readLoop length fuel (temp ++ [c])
    else return temp

def syscallRead (fd buffer length : U64) : Exec U64 :=
  if fd ≠ 0 then return ERR_BADF
  else if length = 0 then return 0
  else do
    let length := if length > tempSize then tempSize else length
    let temp ← fun s => readLoop length (s.rx.length + 1) [] s
    let totalRead := BitVec.ofNat 64 temp.length
    if ← copyToUser T buffer temp totalRead then return totalRead else return ERR_FAULT

def syscallExit {α : Type} (status : U64) : Exec α := do
  uartPuts (literal "User task exited with status ")
  printHex status
  uartPuts (literal ".\n")
  throw .halted

def syscallHandle (frame : TrapFrame) : Exec TrapFrame :=
  if frame.a7 = SYSCALL_READ then do
    let a0 ← syscallRead T frame.a0 frame.a1 frame.a2
    return { frame with a0, epc := frame.epc + 4 }
  else if frame.a7 = SYSCALL_WRITE then do
    let a0 ← syscallWrite T frame.a0 frame.a1 frame.a2
    return { frame with a0, epc := frame.epc + 4 }
  else if frame.a7 = SYSCALL_EXIT then syscallExit frame.a0
  else if frame.a7 = SYSCALL_EXIT_GROUP then syscallExit frame.a0
  else return { frame with a0 := ERR_NOSYS, epc := frame.epc + 4 }

end RvOs
