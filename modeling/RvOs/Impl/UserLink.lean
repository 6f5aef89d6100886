import Mathlib.Tactic.Common

/-!
# The user program's linker script

`linker/user.ld`: four output sections placed one after the other from
0x400000, each aligned to 16 bytes. Each symbol is the location counter where
the script assigns it, before the alignment of the section that follows. An
empty output section is not created, and does not move the counter.
-/

namespace RvOs

/-- The sizes of the output sections. -/
structure UserSections where
  text : Nat
  rodata : Nat
  data : Nat
  bss : Nat

structure UserSymbols where
  userTextStart : Nat
  userTextEnd : Nat
  userRodataStart : Nat
  userRodataEnd : Nat
  userDataStart : Nat
  userDataEnd : Nat
  userBssStart : Nat
  userBssEnd : Nat
  userImageEnd : Nat
  deriving DecidableEq

/-- The location counter after `: ALIGN(16) { ... }` of a section of `size` bytes. -/
def placeSection (dot size : Nat) : Nat :=
  if size = 0 then dot else (dot + 15) / 16 * 16 + size

def userLink (sections : UserSections) : UserSymbols :=
  let dot := 0x400000
  let userTextStart := dot
  let dot := placeSection dot sections.text
  let userTextEnd := dot
  let userRodataStart := dot
  let dot := placeSection dot sections.rodata
  let userRodataEnd := dot
  let userDataStart := dot
  let dot := placeSection dot sections.data
  let userDataEnd := dot
  let userBssStart := dot
  let dot := placeSection dot sections.bss
  let userBssEnd := dot
  { userTextStart, userTextEnd, userRodataStart, userRodataEnd, userDataStart, userDataEnd, userBssStart,
    userBssEnd, userImageEnd := dot }

/-- The bytes of the flat image, from the start to the end of `.data`. -/
def flatImageSize (sections : UserSections) : Nat :=
  (userLink sections).userDataEnd - (userLink sections).userTextStart

end RvOs
