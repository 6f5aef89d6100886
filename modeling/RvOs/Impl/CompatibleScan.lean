import RvOs.Impl.Dtb

/-!
# The scan of `compatible` and what it reads

The loops of `dtb_get_uart_base` over one property, with every byte loaded:
`none` is a load that is not of an array. `looksLikeUart` is the scan where all
loads are.
-/

namespace RvOs

variable (load : Nat → Option Byte) (compatLen : Nat)

/-- `s[0] == … && s[1] == … && …`, from index `i` on. -/
def matchesIn : Nat → List Byte → Option Bool
  | _, [] => some true
  | i, c :: text => do
    let b ← load i
    if b = c then matchesIn (i + 1) text else some false

/-- The inner loop. -/
def skipStringIn (i : Nat) : Option { j : Nat // i ≤ j } :=
  if i < compatLen then do
    let b ← load i
    if b ≠ 0 then do
      let j ← skipStringIn (i + 1)
      some ⟨j, Nat.le_of_succ_le j.property⟩
    else some ⟨i, Nat.le_refl i⟩
  else some ⟨i, Nat.le_refl i⟩
termination_by compatLen - i

/-- The outer loop: `looks_like_uart`. -/
def scanCompatibleIn (i : Nat) : Option Bool :=
  if i < compatLen then do
    let matchedNs16550 ← matchesIn load i (literal "ns16550")
    let matchedUart ← matchesIn load i (literal "uart")
    if matchedNs16550 || matchedUart then some true
    else do
      let j ← skipStringIn load compatLen i
      scanCompatibleIn (j + 1)
  else some false
termination_by compatLen - i
decreasing_by
  have := j.property
  omega

end RvOs
