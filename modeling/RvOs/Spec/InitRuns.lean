import RvOs.Impl.Init
import RvOs.Spec.Task

/-!
# What the init program does

The machine code of `init.S` is one that takes each line to the next
(`RunsInit`). With `initOutcome` it is to end: it prompts, takes a line, and if
the line can be stored prints it and exits.
-/

namespace RvOs

open RiscV Relation

/-- The register that an instruction writes, and its value. -/
def InitInstr.result (text : Nat) (reg : Reg → U64) : InitInstr → Option (Reg × U64)
  | .li rd imm => some (rd, imm)
  | .la rd symbol => some (rd, symbol.addr text)
  | .sub rd rs rs' => some (rd, reg rs - reg rs')
  | .mv rd rs => some (rd, reg rs)
  | .ecall => none
  | .j => none

/-- The machine code `text` is in memory. -/
def HasText (text : List Byte) (u : UserState) : Prop :=
  ∀ i < text.length, u.mem (byteAddr USER_TEXT_START i) = text.getD i 0

/-- The hart runs `init.S` as the machine code `text`, with line `i` at `addr i`. -/
structure RunsInit {T : Translation} (code : UserCode T) (text : List Byte) (addr : Nat → U64) : Prop where
  entry : addr 0 = USER_TEXT_START
  /-- A line may be several instructions. -/
  line : ∀ (i : Nat) (instr : InitInstr) (u : UserState) (rd : Reg) (v : U64), initText[i]? = some instr →
    u.pc = addr i → u.reg .zero = 0 → HasText text u → instr.result text.length u.reg = some (rd, v) →
    ReflTransGen (fun a b => code.event a = .next b) u
      { u with pc := addr (i + 1), reg := Function.update u.reg rd v }
  ecall : ∀ (i : Nat) (u : UserState), initText[i]? = some .ecall → u.pc = addr i → HasText text u →
    (∃ tval, code.event u = .trap 8 tval) ∧ addr (i + 1) = addr i + 4

/-- How the program ends for the input `rx`, and what is sent until then. -/
def initOutcome (writable : Bool) (rx : List Byte) : Stop × List Byte :=
  let sent := promptText ++ shown 64 rx []
  match editLine 64 rx [] with
  | none => (.waiting, sent)
  | some (line, _) =>
    if writable then (.halted, sent ++ echoText ++ line.filter (· ≠ 0) ++ exitText 0)
    else (.panicked, sent ++ panicText)

/-- The input buffer starts a page: it is 4 bytes after the end of the image. -/
def bufferStartsPage (text : Nat) : Bool := decide ((sectionStart text + 48) % 4096 = 0)

/-- The memory of the program for `text` bytes of machine code: its `.rodata` can
be loaded, and its input buffer can be stored to, and loaded again, or not from
its first byte on. -/
structure InitMemory (T : Translation) (text : Nat) (writable : Bool) : Prop where
  size : text ≤ 0x4000000000
  rodata : ∀ i < promptText.length + echoText.length,
    T.userMay .load (byteAddr (InitSymbol.prompt.addr text) i) = true
  store : ∀ i < 64, writable = true → T.userMay .store (byteAddr (InitSymbol.inputBuffer.addr text) i) = true
  load : ∀ i < 64, writable = true → T.userMay .load (byteAddr (InitSymbol.inputBuffer.addr text) i) = true
  fault : writable = false → ¬ T.Allows .store (byteAddr (InitSymbol.inputBuffer.addr text) 0)
  own : ∀ i < 64, T.Allows .store (byteAddr (InitSymbol.inputBuffer.addr text) i) →
    T.userMay .store (byteAddr (InitSymbol.inputBuffer.addr text) i) = true

end RvOs
