import RvOs.Impl.Syscall

/-!
# The array of `syscall_read`

`syscall_read` on the array `temp` and the index `total_read`, which
`syscallRead` has as one list. A result `none` stands for an access to `temp`
past its end.
-/

namespace RvOs

/-- The local variables of `syscall_read`. -/
structure ReadBuffer where
  temp : Vector Byte 256
  totalRead : U64

/-- `temp[i] = value`. -/
def tempStore (temp : Vector Byte 256) (i : U64) (value : Byte) : Option (Vector Byte 256) :=
  if h : i.toNat < 256 then some (temp.set i.toNat value h) else none

/-- `temp[i]`. -/
def tempLoad (temp : Vector Byte 256) (i : U64) : Option Byte :=
  if h : i.toNat < 256 then some (temp.get ⟨i.toNat, h⟩) else none

/-- The loop of `syscall_read`, with fuel as in `readLoop`. -/
def readLoopAt (length : U64) : Nat → ReadBuffer → Exec (Option ReadBuffer)
  | 0, _ => throw .waiting
  | fuel + 1, b =>
    if b.totalRead < length then do
      let c ← uartGetc
      let c : Byte := if c = 0x0D then 0x0A else c
      if c = 0x08 ∨ c = 0x7F then
        if 0 < b.totalRead then
          let b := { b with totalRead := b.totalRead - 1 }
          uartPutc 0x08
          uartPutc 0x20
          uartPutc 0x08
          readLoopAt length fuel b
        else readLoopAt length fuel b
      else
        match tempStore b.temp b.totalRead c with
        | none => return none
        | some temp =>
          let b : ReadBuffer := ⟨temp, b.totalRead + 1⟩
          uartPutc c
          if c = 0x0A then return some b else readLoopAt length fuel b
    else return some b

variable (T : Translation)

/-- The first `n` iterations of the loop of `copy_to_user`, from `temp`. -/
def storeTemp (userDst : U64) (temp : Vector Byte 256) : Nat → Exec (Option Unit)
  | 0 => return some ()
  | n + 1 => do
    match ← storeTemp userDst temp n with
    | none => return none
    | some () =>
      match tempLoad temp (BitVec.ofNat 64 n) with
      | none => return none
      | some value =>
        store8 T (userDst + BitVec.ofNat 64 n) value
        return some ()

/-- `copy_to_user` from `temp`. -/
def copyTempToUser (userDst : U64) (temp : Vector Byte 256) (size : U64) : Exec (Option Bool) :=
  if userDst = 0 ∧ size ≠ 0 then return some false
  else do
    let oldStatus ← csrReadSstatus
    csrWriteSstatus (oldStatus ||| SSTATUS_SUM)
    match ← storeTemp T userDst temp size.toNat with
    | none => return none
    | some () =>
      csrWriteSstatus oldStatus
      return some true

/-- `syscall_read`, with what `temp` holds at the call. -/
def syscallReadAt (temp : Vector Byte 256) (fd buffer length : U64) : Exec (Option U64) :=
  if fd ≠ 0 then return some ERR_BADF
  else if length = 0 then return some 0
  else do
    let length := if length > tempSize then tempSize else length
    match ← fun s => readLoopAt length (s.rx.length + 1) ⟨temp, 0⟩ s with
    | none => return none
    | some b =>
      match ← copyTempToUser T buffer b.temp b.totalRead with
      | none => return none
      | some ok => if ok then return some b.totalRead else return some ERR_FAULT

end RvOs
