import RvOs.Framework.RiscV
import RvOs.Impl.Process
import RvOs.Impl.Uart
import RvOs.Impl.UserLink

/-!
# The init program

`init.S`, and its sections in the image that `user.ld` makes. The machine code
of `.text` is the assembler's.
-/

namespace RvOs

open RiscV

inductive InitSymbol where
  | prompt
  | promptEnd
  | echoPrefix
  | echoPrefixEnd
  | inputBuffer
  deriving DecidableEq

inductive InitInstr where
  | li (rd : Reg) (imm : U64)
  | la (rd : Reg) (symbol : InitSymbol)
  | sub (rd rs rs' : Reg)
  | mv (rd rs : Reg)
  | ecall
  /-- To itself. -/
  | j
  deriving DecidableEq

/-- `_start`. -/
def initText : List InitInstr := [
  -- write(1, prompt, prompt_end - prompt)
  .li .a0 1,
  .la .a1 .prompt,
  .la .a2 .promptEnd,
  .sub .a2 .a2 .a1,
  .li .a7 64,
  .ecall,
  -- read(0, input_buffer, 64)
  .li .a0 0,
  .la .a1 .inputBuffer,
  .li .a2 64,
  .li .a7 63,
  .ecall,
  .mv .s0 .a0,
  -- write(1, echo_prefix, echo_prefix_end - echo_prefix)
  .li .a0 1,
  .la .a1 .echoPrefix,
  .la .a2 .echoPrefixEnd,
  .sub .a2 .a2 .a1,
  .li .a7 64,
  .ecall,
  -- write(1, input_buffer, bytes_read)
  .li .a0 1,
  .la .a1 .inputBuffer,
  .mv .a2 .s0,
  .li .a7 64,
  .ecall,
  -- exit_group(0)
  .li .a0 0,
  .li .a7 94,
  .ecall,
  .j]

def promptText : List Byte := literal "Type something and press enter: "

def echoText : List Byte := literal "\nYou typed: "

/-- The sizes of its sections, with `text` bytes of machine code. -/
def initSizes (text : Nat) : UserSections where
  text := text
  rodata := promptText.length + echoText.length
  data := 0
  bss := 64

/-- The start of a section, from the location counter before it. -/
def sectionStart (dot : Nat) : Nat := (dot + 15) / 16 * 16

/-- The address of a symbol. -/
def InitSymbol.addr (text : Nat) (symbol : InitSymbol) : U64 :=
  let rodata := sectionStart (userLink (initSizes text)).userRodataStart
  let bss := sectionStart (userLink (initSizes text)).userBssStart
  BitVec.ofNat 64 <| match symbol with
    | .prompt => rodata
    | .promptEnd => rodata + promptText.length
    | .echoPrefix => rodata + promptText.length
    | .echoPrefixEnd => rodata + promptText.length + echoText.length
    | .inputBuffer => bss

/-- The flat image: `.text`, and `.rodata` from the next multiple of 16. -/
def initImage (text : List Byte) : List Byte :=
  text ++ List.replicate (sectionStart text.length - text.length) 0 ++ (promptText ++ echoText)

end RvOs
