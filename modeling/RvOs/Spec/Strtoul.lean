import RvOs.Framework.Numeral
import RvOs.Impl.Uart
import RvOs.Spec.Memory

/-!
# `strtoul` of the C standard

The string is white space, a sign and a numeral, for the bases up to 16
(`standardStrtoul`), and `strtoul` is to return what the numeral stands for
(`Converts`). `Convertible` tells the strings apart on which it does.
-/

namespace RvOs

/-- White space. -/
def isSpace (c : Byte) : Bool := c == 0x20 || (0x09 ≤ c && c ≤ 0x0D)

/-- A space or a tab. -/
def isBlank (c : Byte) : Bool := c == 0x20 || c == 0x09

def isSign (c : Byte) : Bool := c == 0x2B || c == 0x2D

/-- The value of a digit or a letter. -/
def digitValue (c : Byte) : Option Nat :=
  if 0x30 ≤ c ∧ c ≤ 0x39 then some (c.toNat - 0x30)
  else if 0x61 ≤ c ∧ c ≤ 0x7A then some (c.toNat - 0x61 + 10)
  else if 0x41 ≤ c ∧ c ≤ 0x5A then some (c.toNat - 0x41 + 10)
  else none

/-- The longest sequence of digits that `s` starts with. -/
def digits (b : Nat) : List Byte → List Nat
  | [] => []
  | c :: s =>
    match digitValue c with
    | none => []
    | some d => if d < b then d :: digits b s else []

/-- `s` starts with 0x or 0X. -/
def startsHex : List Byte → Bool
  | c :: x :: _ => c == 0x30 && (x == 0x78 || x == 0x58)
  | _ => false

/-- `s` starts with 0x or 0X and a hexadecimal digit. -/
def hasHexPrefix (s : List Byte) : Bool := startsHex s && !(digits 16 (s.drop 2)).isEmpty

/-- The base of a numeral and the length of its prefix. -/
def numeralBase (base : Nat) (s : List Byte) : Nat × Nat :=
  if (base = 0 ∨ base = 16) ∧ hasHexPrefix s then (16, 2)
  else if base = 0 then if s.head? = some 0x30 then (8, 0) else (10, 0)
  else (base, 0)

/-- The base, the length of the prefix and the digits of a numeral. -/
def standardNumeral (base : Nat) (s : List Byte) : Nat × Nat × List Nat :=
  let (b, skip) := numeralBase base s
  (b, skip, digits b (s.drop skip))

def ULONG_MAX : Nat := 2 ^ 64 - 1

/-- The value of `strtoul` and the offset of its end pointer. -/
def standardStrtoul (base : Nat) (text : List Byte) : Nat × Nat :=
  let s := text.dropWhile isSpace
  let sign := (s.head?.any isSign).toNat
  let (b, skip, ds) := standardNumeral base (s.drop sign)
  if ds = [] then (0, 0)
  else
    let value := numeral b ds
    (if ULONG_MAX < value then ULONG_MAX else if s.head? = some 0x2D then (2 ^ 64 - value) % 2 ^ 64 else value,
      (text.takeWhile isSpace).length + sign + skip + ds.length)

/-- The code returns the value and the end pointer of the standard, whatever follows the string. -/
def Converts (base : Nat) (text : List Byte) : Prop := ∃ result endptr,
  (∀ after, strtoul (text ++ 0 :: after) base = some (result, endptr)) ∧
    (result.toNat, endptr) = standardStrtoul base text

/-! ## Strings that are converted -/

/-- No sign comes after the blanks. -/
def Unsigned (text : List Byte) : Prop := ¬ (text.dropWhile isBlank).head?.any isSign

instance (text : List Byte) : Decidable (Unsigned text) := inferInstanceAs (Decidable (¬ _))

/-- `value` fits 64 bits, or wraps to the largest value. -/
def Fits64 (value : Nat) : Prop := value % 2 ^ 64 = min value ULONG_MAX

instance (value : Nat) : Decidable (Fits64 value) := inferInstanceAs (Decidable (_ = _))

/-- A numeral without a sign that is read as the standard has it: no prefix for
base 16, and for base 0 digits after a prefix, and an octal numeral that is the
same as a decimal one. -/
def PlainNumeral (base : Nat) (s : List Byte) : Prop :=
  if base = 0 then
    if hasHexPrefix s then Fits64 (numeral 16 (digits 16 (s.drop 2)))
    else if startsHex s then False
    else if s.head? = some 0x30 then
      digits 10 s = digits 8 s ∧ numeral 10 (digits 10 s) % 2 ^ 64 = min (numeral 8 (digits 8 s)) ULONG_MAX
    else Fits64 (numeral 10 (digits 10 s))
  else (base = 16 → ¬ hasHexPrefix s) ∧ Fits64 (numeral base (digits base s))

instance (base : Nat) (s : List Byte) : Decidable (PlainNumeral base s) := inferInstanceAs (Decidable (ite ..))

/-- There is no numeral after white space and a sign. -/
def NoNumeral (base : Nat) (s : List Byte) : Prop :=
  (standardNumeral base (s.drop (s.head?.any isSign).toNat)).2.2 = []

instance (base : Nat) (s : List Byte) : Decidable (NoNumeral base s) := inferInstanceAs (Decidable (_ = _))

/-- Without a numeral, no blank comes first; else only blanks do and it is a plain one. -/
def Convertible (base : Nat) (text : List Byte) : Prop :=
  if NoNumeral base (text.dropWhile isSpace) then ¬ text.head?.any isBlank
  else (text.takeWhile isSpace).all isBlank ∧ PlainNumeral base (text.dropWhile isSpace)

instance (base : Nat) (text : List Byte) : Decidable (Convertible base text) := inferInstanceAs (Decidable (ite ..))

/-! ## Text of numbers -/

def hexDigit (d : Nat) : Byte := (literal "0123456789ABCDEF").getD d 0

/-- The characters of `value`. -/
def hexText (value : U64) : List Byte := literal "0x" ++ (lastDigits 16 value.toNat 16).map hexDigit

end RvOs
