import RvOs.Impl.Syscall

/-!
# Trap handlers

`TrapHandler.cpp`, and `supervisor_trap_handler` of `Traps.cpp`. A handler gets
the frame and returns it as it leaves it. `runTrap` is a trap with the traps
its handler takes in turn.
-/

namespace RvOs

def panicTrap {α : Type} (message : String) (frame : TrapFrame) : Exec α := do
  debugPrints message
  debugPrints "\nsepc: "
  debugPrintHex frame.epc
  debugPrints "\nscause: "
  debugPrintHex frame.cause
  debugPrints "\nstval: "
  debugPrintHex frame.tval
  debugPrints "\nsstatus: "
  debugPrintHex frame.status
  debugPrints "\n"
  panic "panic_trap" "Trap fatal."

def trapCode (cause : U64) : U64 := cause &&& 0x7FFFFFFFFFFFFFFF

def trapIsInterrupt (cause : U64) : Bool := (cause >>> 63) != 0

def trapFromUser (frame : TrapFrame) : Bool := (frame.status &&& SSTATUS_SPP) == 0

variable (T : Translation)

def advanceTrap (frame : TrapFrame) : Exec TrapFrame := do
  let firstHalf ← load16 T frame.epc
  if firstHalf &&& 0x3 ≠ 0x3 then return { frame with epc := frame.epc + 2 }
  else return { frame with epc := frame.epc + 4 }

def handleInterrupt (frame : TrapFrame) : Exec TrapFrame :=
  match (trapCode frame.cause).toNat with
  | 1 => panicTrap "Supervisor software interrupt observed: unimplemented." frame
  | 5 => panicTrap "Supervisor timer interrupt observed: unimplemented." frame
  | 9 => panicTrap "Supervisor external interrupt observed: unimplemented." frame
  | _ => panicTrap "Unknown interrupt observed." frame

def handleSupervisorException (frame : TrapFrame) : Exec TrapFrame :=
  match (trapCode frame.cause).toNat with
  | 0 => panicTrap "Supervisor instruction address misaligned." frame
  | 1 => panicTrap "Supervisor instruction access fault." frame
  | 2 => panicTrap "Supervisor illegal instruction." frame
  | 3 => advanceTrap T frame
  | 4 => panicTrap "Supervisor load address misaligned." frame
  | 5 => panicTrap "Supervisor load access fault." frame
  | 6 => panicTrap "Supervisor store/AMO address misaligned." frame
  | 7 => panicTrap "Supervisor store/AMO access fault." frame
  | 8 => panicTrap "ECALL from U-mode reached supervisor exception path unexpectedly." frame
  | 9 => panicTrap "Unexpected supervisor ecall." frame
  | 12 => panicTrap "Supervisor instruction page fault." frame
  | 13 => panicTrap "Supervisor load page fault." frame
  | 15 => panicTrap "Supervisor store/AMO page fault." frame
  | _ => panicTrap "Unknown supervisor exception observed." frame

def handleUserException (frame : TrapFrame) : Exec TrapFrame :=
  match (trapCode frame.cause).toNat with
  | 0 => panicTrap "User instruction address misaligned." frame
  | 1 => panicTrap "User instruction access fault." frame
  | 2 => panicTrap "User illegal instruction." frame
  | 3 => advanceTrap T frame
  | 4 => panicTrap "User load address misaligned." frame
  | 5 => panicTrap "User load access fault." frame
  | 6 => panicTrap "User store/AMO address misaligned." frame
  | 7 => panicTrap "User store/AMO access fault." frame
  | 8 => syscallHandle T frame
  | 12 => panicTrap "User instruction page fault." frame
  | 13 => panicTrap "User load page fault." frame
  | 15 => panicTrap "User store/AMO page fault." frame
  | _ => panicTrap "Unknown user exception observed." frame

def handleException (frame : TrapFrame) : Exec TrapFrame :=
  if trapFromUser frame then handleUserException T frame else handleSupervisorException T frame

def trapHandler (frame : TrapFrame) : Exec TrapFrame :=
  if trapIsInterrupt frame.cause then handleInterrupt frame else handleException T frame

def supervisorTrapHandler (frame : TrapFrame) : Exec TrapFrame := do
  debugPrints "Supervisor Trap Encountered\n"
  let isInterrupt := trapIsInterrupt frame.cause
  let fromUser := (frame.status &&& SSTATUS_SPP) == 0
  debugPrints (if isInterrupt then "Type: Interrupt\n" else "Type: Exception\n")
  debugPrints "Origin: "
  debugPrints (if fromUser then "User\n" else "Supervisor\n")
  debugPrints "Code: "
  debugPrintHex (trapCode frame.cause)
  debugPrints "\n"
  debugPrints "sepc: "
  debugPrintHex frame.epc
  debugPrints "\n"
  debugPrints "stval: "
  debugPrintHex frame.tval
  debugPrints "\n"
  trapHandler T frame

/-! ## Traps in the handler -/

def SSTATUS_SIE : U64 := 1 <<< 1
def SSTATUS_SPIE : U64 := 1 <<< 5

/-- `sstatus` after the hart takes a trap in S-mode. -/
def trapStatus (sstatus : U64) : U64 :=
  (sstatus &&& ~~~(SSTATUS_SIE ||| SSTATUS_SPIE)) ||| SSTATUS_SPP ||| ((sstatus &&& SSTATUS_SIE) <<< 4)

/-- `scause` of a page fault. -/
def faultCause : Access → U64
  | .load => 13
  | .store => 15

/-- The frame of a page fault in the handler; `kernel` has the registers and the
program counter there. -/
def faultFrame (kernel : TrapFrame) (access : Access) (virtualAddress sstatus : U64) : TrapFrame :=
  { kernel with status := trapStatus sstatus, cause := faultCause access, tval := virtualAddress }

/-- A trap whose handler's page faults are traps in turn, up to `n` deep. When
the handler of a page fault returns, the access is made again. All of it runs
under `T` and on a stack that is kept, so it holds for stores that change
neither. -/
def runTrap (kernel : TrapFrame) : Nat → TrapFrame → Exec TrapFrame
  | 0, frame => supervisorTrapHandler T frame
  | n + 1, frame => fun s =>
    match supervisorTrapHandler T frame s with
    | .error (.fault access va) s =>
      match runTrap kernel n (faultFrame kernel access va s.sstatus) { s with sstatus := trapStatus s.sstatus } with
      | .ok _ s => .error (.fault access va) s
      | r => r
    | r => r

end RvOs
