import RvOs.Impl.ReadBuffer
import RvOs.Spec.UserMemory

/-!
# A line editor and its screen

What `read` is for: the keys `input` edit a line (`edited`) until one of them
ends it or it is full (`Stops`), and what is sent for them shows the line on a
terminal (`Terminal.Shows`).
-/

namespace RvOs

/-- The line after the key `c`: BS and DEL take the last character away. -/
def editKey (line : List Byte) (c : Byte) : List Byte :=
  if c = 0x08 ∨ c = 0x7F then line.dropLast else line ++ [normalize c]

/-- The line after the keys `input`. -/
def edited (input : List Byte) : List Byte := input.foldl editKey []

/-- After the keys `input` the last one has ended the line, or there are `limit` characters. -/
def Stops (limit : Nat) (input : List Byte) : Prop :=
  input.getLast?.map normalize = some 0x0A ∨ (edited input).length = limit

instance (limit : Nat) (input : List Byte) : Decidable (Stops limit input) := inferInstanceAs (Decidable (_ ∨ _))

/-- The editor takes all of the keys `input`: it has not stopped before the last one. -/
def Takes (limit : Nat) (input : List Byte) : Prop := ∀ k < input.length, ¬ Stops limit (input.take k)

instance (limit : Nat) (input : List Byte) : Decidable (Takes limit input) :=
  inferInstanceAs (Decidable (∀ k < input.length, ¬ Stops limit (input.take k)))

/-! ## The screen -/

/-- A row of cells without an end. -/
structure Terminal where
  cells : Nat → Byte
  cursor : Nat

namespace Terminal

/-- A byte received: BS moves the cursor left, any other byte overwrites a cell. -/
def put (t : Terminal) (c : Byte) : Terminal :=
  if c = 0x08 then { t with cursor := t.cursor - 1 }
  else { cells := Function.update t.cells t.cursor c, cursor := t.cursor + 1 }

def render (t : Terminal) (bytes : List Byte) : Terminal := bytes.foldl put t

/-- Since `t` exactly `chars` has come to stand left of the cursor. -/
structure Shows (t t' : Terminal) (chars : List Byte) : Prop where
  cursor : t'.cursor = t.cursor + chars.length
  line : ∀ i c, chars[i]? = some c → t'.cells (t.cursor + i) = c
  left : ∀ i < t.cursor, t'.cells i = t.cells i

end Terminal

/-! ## The call -/

/-- The translation by the tables at `root` in the memory `m`. -/
abbrev Translation.ofTables (m : Mem) (root : Addr) : Translation := sv39Translate m root

/-- What a call of `read` that returns has done besides sending: the characters
`chars` are stored to the buffer and `rest` is left to receive. -/
structure ReadsLine (T : Translation) (buffer : U64) (chars rest : List Byte) (s s' : Hart) : Prop where
  rx : s'.rx = rest
  stored : ∀ i c, chars[i]? = some c → s'.mem (T.phys (byteAddr buffer i)) = c
  others : ∀ a, (∀ i < chars.length, a ≠ T.phys (byteAddr buffer i)) → s'.mem a = s.mem a
  sstatus : s'.sstatus = s.sstatus

end RvOs
