import RvOs.Framework.Mem
import RvOs.Impl.Allocator

/-!
# Memory and strings

The functions of `memory.cpp` that copy bytes, on the memory of the kernel, and
those that scan strings. A pointer into a string is its offset from the start,
and a string the bytes from a pointer on, as far as they may be read: a result
`none` stands for a read past them. `char` has no sign.
-/

namespace RvOs

/-- The first `n` iterations of the loop of `memcpy`, which `memmove` has for `dest < src`. -/
def copyUp (dest src : Addr) : Nat → Mem → Mem
  | 0, m => m
  | n + 1, m =>
    let m := copyUp dest src n m
    m.write8 (dest + BitVec.ofNat 64 n) (m (src + BitVec.ofNat 64 n))

/-- The other loop of `memmove`, from `i` down. -/
def copyDown (dest src : Addr) : Nat → Mem → Mem
  | 0, m => m
  | i + 1, m => copyDown dest src i (m.write8 (dest + BitVec.ofNat 64 i) (m (src + BitVec.ofNat 64 i)))

/-- What `memcpy` returns, and memory after it. -/
def memcpy (dest src n : U64) (m : Mem) : Addr × Mem := (dest, copyUp dest src n.toNat m)

/-- What `memmove` returns, and memory after it. -/
def memmove (dest src n : U64) (m : Mem) : Addr × Mem :=
  if dest < src then (dest, copyUp dest src n.toNat m)
  else (dest, copyDown dest src n.toNat m)

/-! ## Strings -/

section Search

variable (c : BitVec 32)

/-- The loop of `strchr` from offset `i` on, and its end. The result is a pointer or null. -/
def strchrLoop : Nat → List Byte → Option (Option Nat)
  | _, [] => none
  | i, b :: s =>
    if b ≠ 0 then
      if b = c.setWidth 8 then some (some i)
      else strchrLoop (i + 1) s
    else some (if c = 0 then some i else none)

def strchr (s : List Byte) : Option (Option Nat) := strchrLoop c 0 s

/-- The loop of `strrchr` from offset `i` on, and its end. -/
def strrchrLoop : Option Nat → Nat → List Byte → Option (Option Nat)
  | _, _, [] => none
  | last, i, b :: s =>
    if b ≠ 0 then
      let last := if b = c.setWidth 8 then some i else last
      strrchrLoop last (i + 1) s
    else if c = 0 then some (some i)
    else some last

def strrchr (s : List Byte) : Option (Option Nat) := strrchrLoop c none 0 s

end Search

/-- `strlen`. -/
def strlen : List Byte → Option Nat
  | [] => none
  | b :: s => if b ≠ 0 then (strlen s).map (· + 1) else some 0

/-! ## Arrays

An array is its bytes by index, `none` where they may not be read. -/

/-- The loop of `memcmp` from index `i` on, with `n` iterations left. -/
def memcmpLoop (x y : Nat → Option Byte) : Nat → Nat → Option Int
  | 0, _ => some 0
  | n + 1, i => do
    let a ← x i
    let b ← y i
    if a ≠ b then some (a.toNat - b.toNat) else memcmpLoop x y n (i + 1)

def memcmp (x y : Nat → Option Byte) (n : Nat) : Option Int := memcmpLoop x y n 0

/-- The loop of `memchr` from index `i` on, with `n` iterations left. The result is an index or null. -/
def memchrLoop (p : Nat → Option Byte) (c : BitVec 32) : Nat → Nat → Option (Option Nat)
  | 0, _ => some none
  | n + 1, i => do
    let b ← p i
    if b = c.setWidth 8 then some (some i) else memchrLoop p c n (i + 1)

def memchr (p : Nat → Option Byte) (c : BitVec 32) (n : Nat) : Option (Option Nat) := memchrLoop p c n 0

/-! ## Numbers -/

/-- The digit of a character, `none` for the last `else`. -/
def strtoulDigit (c : Byte) : Option Int :=
  if 0x30 ≤ c ∧ c ≤ 0x39 then some (c.toNat - 0x30)
  else if 0x61 ≤ c ∧ c ≤ 0x66 then some (10 + (c.toNat - 0x61))
  else if 0x41 ≤ c ∧ c ≤ 0x46 then some (10 + (c.toNat - 0x41))
  else none

/-- The loop of `strtoul` over the blanks: the pointer after it. -/
def skipBlanks : Nat → List Byte → Option (Nat × List Byte)
  | _, [] => none
  | i, b :: s => if b = 0x20 ∨ b = 0x09 then skipBlanks (i + 1) s else some (i, b :: s)

/-- The base that is used, and the pointer after the prefix that is looked at for base 0. -/
def strtoulBase (base : Int) (i : Nat) (s : List Byte) : Option (Int × Nat × List Byte) :=
  if base = 0 then
    match s with
    | [] => none
    | b :: s' =>
      if b = 0x30 then
        match s' with
        | [] => none
        | x :: s'' => if x = 0x78 ∨ x = 0x58 then some (16, i + 2, s'') else some (10, i, s)
      else some (10, i, s)
  else some (base, i, s)

/-- The loop of `strtoul` over the digits: the result and the pointer after it. -/
def strtoulLoop (base : Int) : U64 → Nat → List Byte → Option (U64 × Nat)
  | _, _, [] => none
  | result, i, c :: s =>
    if c ≠ 0 then
      match strtoulDigit c with
      | none => some (result, i)
      | some digit =>
        if base ≤ digit then some (result, i)
        else strtoulLoop base (result * BitVec.ofInt 64 base + BitVec.ofInt 64 digit) (i + 1) s
    else some (result, i)

/-- What `strtoul` returns, and `*endptr` for an `endptr` that is not null. -/
def strtoul (nptr : List Byte) (base : Int) : Option (U64 × Nat) := do
  let (i, s) ← skipBlanks 0 nptr
  let (base, i, s) ← strtoulBase base i s
  strtoulLoop base 0 i s

end RvOs
