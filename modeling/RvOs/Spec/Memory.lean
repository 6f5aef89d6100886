import RvOs.Impl.Memory

/-!
# Moves and searches

What `memmove`, `strchr` and `strrchr` are for: bytes moved between two ranges
of one memory (`Moves`), and the first and the last position of a character in a
string with its NUL (`Searches`).
-/

namespace RvOs

/-- The `n` bytes at `src` are moved to `dest`, and the result `r` is `dest`. -/
structure Moves (dest src n : U64) (m : Mem) (r : Addr × Mem) : Prop where
  returned : r.1 = dest
  moved : ∀ i < n.toNat, r.2 (dest + BitVec.ofNat 64 i) = m (src + BitVec.ofNat 64 i)
  others : ∀ a : Addr, ¬ (dest.toNat ≤ a.toNat ∧ a.toNat < dest.toNat + n.toNat) → r.2 a = m a

/-- Ranges of `n` bytes with no byte in common. -/
def RangesDisjoint (dest src n : U64) : Prop :=
  dest.toNat + n.toNat ≤ src.toNat ∨ src.toNat + n.toNat ≤ dest.toNat

/-! ## Searches -/

/-- A string without its NUL. -/
def CString (text : List Byte) : Prop := 0 ∉ text

instance (text : List Byte) : Decidable (CString text) := inferInstanceAs (Decidable (0 ∉ text))

/-- Position `i` of `text` with its NUL holds the character that `c` converts to. -/
def HasChar (text : List Byte) (c : BitVec 32) (i : Nat) : Prop := (text ++ [0])[i]? = some (c.setWidth 8)

/-- The pointer is to the first such position, and null if there is none. -/
def IsFirst (text : List Byte) (c : BitVec 32) : Option Nat → Prop
  | some i => HasChar text c i ∧ ∀ j, HasChar text c j → i ≤ j
  | none => ∀ j, ¬ HasChar text c j

/-- The pointer is to the last such position, and null if there is none. -/
def IsLast (text : List Byte) (c : BitVec 32) : Option Nat → Prop
  | some i => HasChar text c i ∧ ∀ j, HasChar text c j → j ≤ i
  | none => ∀ j, ¬ HasChar text c j

/-- What the searches of `text` for `c` are to return, whatever follows the string. -/
def Searches (text : List Byte) (c : BitVec 32) : Prop := ∃ first last, IsFirst text c first ∧ IsLast text c last ∧
  ∀ after, strchr c (text ++ 0 :: after) = some first ∧ strrchr c (text ++ 0 :: after) = some last

end RvOs
