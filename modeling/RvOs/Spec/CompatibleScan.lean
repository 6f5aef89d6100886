import RvOs.Impl.CompatibleScan

/-!
# What the scan of `compatible` is to do

It is to stay in the property and to find the strings that start with ns16550
or uart (`ScanSound`), which it does unless the property ends in a part of one
of the two (`CutShort`).
-/

namespace RvOs

/-- The strings of a stringlist. -/
def FdtProperty.strings (p : FdtProperty) : List (List Byte) := p.value.splitOn 0

def startsSerial (s : List Byte) : Bool := (literal "ns16550").isPrefixOf s || (literal "uart").isPrefixOf s

/-- The scan reads no byte after `value`, and finds a string of `value`,
whatever comes after it. -/
def ScanSound (value : List Byte) : Prop := ∃ looksLike,
  scanCompatibleIn (fun i => value[i]?) value.length 0 = some looksLike ∧
    (looksLike = true ↔ ∃ s ∈ value.splitOn 0, startsSerial s = true) ∧
    ∀ after, looksLikeUart (FdtProperty.byte ⟨"compatible", value, after⟩) value.length = looksLike

/-- `w` is the start of `text`, but not all of it. -/
def IsPart (w text : List Byte) : Prop := w <+: text ∧ w ≠ text

instance (w text : List Byte) : Decidable (IsPart w text) := inferInstanceAs (Decidable (_ ∧ _))

/-- The last string is a part of ns16550 or of uart, and no other starts with one of these. -/
def CutShort (strings : List (List Byte)) : Prop := (∀ s ∈ strings.dropLast, ¬ startsSerial s = true) ∧
  ∃ w ∈ strings.getLast?, w ≠ [] ∧ (IsPart w (literal "ns16550") ∨ IsPart w (literal "uart"))

instance (strings : List (List Byte)) : Decidable (CutShort strings) := inferInstanceAs (Decidable (_ ∧ _))

end RvOs
