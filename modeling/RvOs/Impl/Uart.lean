import RvOs.Spec.Sv39

/-!
# Console

`UART.cpp`, `PrintHex.cpp`, `Debug.hpp` and `panic.cpp`, on the state of the
hart that traps and system calls act on (`Hart`). The UART is the bytes it has
sent and those it is still to receive; waiting for more is a `Stop`.
-/

namespace RvOs

structure Hart where
  mem : Mem
  sstatus : U64
  /-- What the UART is to receive. -/
  rx : List Byte
  /-- What the UART has sent. -/
  tx : List Byte

/-- Why code does not return. -/
inductive Stop where
  /-- An access that is not allowed. -/
  | fault (access : Access) (virtualAddress : U64)
  /-- `uart_getc`, with nothing left to receive. -/
  | waiting
  /-- The loop of `_panic`. -/
  | panicked
  /-- The loop of `syscall_exit`. -/
  | halted

abbrev Exec := EStateM Stop Hart

def csrReadSstatus : Exec U64 := fun s => .ok s.sstatus s
def csrWriteSstatus (value : U64) : Exec Unit := fun s => .ok () { s with sstatus := value }

def uartPutc (c : Byte) : Exec Unit := fun s => .ok () { s with tx := s.tx ++ [c] }

/-- `uart_puts` on the bytes at `s`, up to the first 0. -/
def uartPuts : List Byte → Exec Unit
  | [] => pure ()
  | c :: s =>
    if c = 0 then pure ()
    else do
      uartPutc c
      uartPuts s

def uartGetc : Exec Byte := fun s =>
  match s.rx with
  | [] => .error .waiting s
  | c :: rx => .ok c { s with rx }

/-- The bytes of a string literal. -/
def literal (s : String) : List Byte := s.toList.map fun c => BitVec.ofNat 8 c.toNat

/-- The digits of `value` from bit `4 * n - 1` down. -/
def printDigits (value : U64) : Nat → Exec Unit
  | 0 => pure ()
  | n + 1 => do
    uartPutc ((literal "0123456789ABCDEF").getD ((value >>> (4 * n)) &&& 0xF).toNat 0)
    printDigits value n

def printHex (value : U64) : Exec Unit := do
  uartPuts (literal "0x")
  printDigits value 16

def debug : Bool := false

def debugPrints (str : String) : Exec Unit := if debug then uartPuts (literal str) else pure ()
def debugPrintHex (val : U64) : Exec Unit := if debug then printHex val else pure ()

/-- `panic` in the function `functionName`. -/
def panic {α : Type} (functionName msg : String) : Exec α := do
  uartPuts (literal "Kernel PANIC in ")
  uartPuts (literal functionName)
  uartPuts (literal ": ")
  uartPuts (literal msg)
  uartPuts (literal "\n")
  throw .panicked

end RvOs
