import RvOs.Framework.Loop
import RvOs.Impl.CompatibleScan
import RvOs.Impl.Memory

/-!
# libfdt

`fdt.c`, `fdt_ro.c` and `fdt_addresses.c`, as far as `DTB.cpp` reaches them, on
the bytes of a blob (`FdtBlob`), with no assumption of `FDT_ASSUME_MASK` set. A
pointer is its offset from the start of the blob, an `int` an integer, and
`unsigned` values are words of 32 bits. Every load may fail: a result `none`
stands for a load that does, and for a loop that goes on for longer than an
offset of type `int` can count.
-/

namespace RvOs

def FDT_MAGIC : BitVec 32 := 0xD00DFEED
def FDT_SW_MAGIC : BitVec 32 := ~~~FDT_MAGIC

def FDT_TAGSIZE : Nat := 4
def FDT_BEGIN_NODE : BitVec 32 := 1
def FDT_END_NODE : BitVec 32 := 2
def FDT_PROP : BitVec 32 := 3
def FDT_NOP : BitVec 32 := 4
def FDT_END : BitVec 32 := 9

def FDT_V1_SIZE : Nat := 7 * 4
def FDT_V2_SIZE : Nat := FDT_V1_SIZE + 4
def FDT_V3_SIZE : Nat := FDT_V2_SIZE + 4
def FDT_V16_SIZE : Nat := FDT_V3_SIZE
def FDT_V17_SIZE : Nat := FDT_V16_SIZE + 4

def FDT_FIRST_SUPPORTED_VERSION : BitVec 32 := 0x02
def FDT_LAST_SUPPORTED_VERSION : BitVec 32 := 0x11

def FDT_ERR_BADOFFSET : Int := 4
def FDT_ERR_BADSTATE : Int := 7
def FDT_ERR_TRUNCATED : Int := 8
def FDT_ERR_BADMAGIC : Int := 9
def FDT_ERR_BADVERSION : Int := 10
def FDT_ERR_BADSTRUCTURE : Int := 11
def FDT_ERR_INTERNAL : Int := 13
def FDT_ERR_ALIGNMENT : Int := 19

def INT_MAX : BitVec 32 := 0x7FFFFFFF

/-- An `int` counts no further than this. -/
def intLimit : Nat := 2 ^ 31

/-- A blob at `addr`: `load i` is the byte at offset `i`, if it may be read. -/
structure FdtBlob where
  addr : U64
  load : Nat → Option Byte

namespace FdtBlob

variable (fdt : FdtBlob)

/-- `fdt32_to_cpu(*p)`. -/
def fdt32ToCpu (p : Nat) : Option (BitVec 32) := do
  let b0 ← fdt.load p
  let b1 ← fdt.load (p + 1)
  let b2 ← fdt.load (p + 2)
  let b3 ← fdt.load (p + 3)
  return b0 ++ b1 ++ b2 ++ b3

/-! ## The header -/

def fdtMagic := fdt.fdt32ToCpu 0
def fdtTotalsize := fdt.fdt32ToCpu 4
def fdtOffDtStruct := fdt.fdt32ToCpu 8
def fdtOffDtStrings := fdt.fdt32ToCpu 12
def fdtOffMemRsvmap := fdt.fdt32ToCpu 16
def fdtVersion := fdt.fdt32ToCpu 20
def fdtLastCompVersion := fdt.fdt32ToCpu 24
def fdtSizeDtStrings := fdt.fdt32ToCpu 32
def fdtSizeDtStruct := fdt.fdt32ToCpu 36

/-- The test of the magic number in `fdt_ro_probe_`, with those that follow for each: 0 or an error. -/
def probeMagic : Option Int := do
  if (← fdt.fdtMagic) = FDT_MAGIC then
    if (← fdt.fdtVersion) < FDT_FIRST_SUPPORTED_VERSION then return -FDT_ERR_BADVERSION
    else if (← fdt.fdtLastCompVersion) > FDT_LAST_SUPPORTED_VERSION then return -FDT_ERR_BADVERSION
    else return 0
  else if (← fdt.fdtMagic) = FDT_SW_MAGIC then
    if (← fdt.fdtSizeDtStruct) = 0 then return -FDT_ERR_BADSTATE else return 0
  else return -FDT_ERR_BADMAGIC

/-- `fdt_ro_probe_`: `totalsize`, or an error below 0. -/
def fdtRoProbe : Option Int := do
  let totalsize ← fdt.fdtTotalsize
  if fdt.addr &&& 7 ≠ 0 then return -FDT_ERR_ALIGNMENT
  else
    let err ← fdt.probeMagic
    if err < 0 then return err
    else if totalsize < INT_MAX then return totalsize.toNat
    else return -FDT_ERR_TRUNCATED

def checkOff (hdrsize totalsize off : BitVec 32) : Bool := off ≥ hdrsize && off ≤ totalsize

def checkBlock (hdrsize totalsize base size : BitVec 32) : Bool :=
  if !checkOff hdrsize totalsize base then false
  else if base + size < base then false
  else if !checkOff hdrsize totalsize (base + size) then false
  else true

def fdtHeaderSize (version : BitVec 32) : Nat :=
  if version ≤ 1 then FDT_V1_SIZE
  else if version ≤ 2 then FDT_V2_SIZE
  else if version ≤ 3 then FDT_V3_SIZE
  else if version ≤ 16 then FDT_V16_SIZE
  else FDT_V17_SIZE

/-- The check of the structure block in `fdt_check_header`. -/
def checkStruct (hdrsize totalsize version : BitVec 32) : Option Bool := do
  if version < 17 then return checkOff hdrsize totalsize (← fdt.fdtOffDtStruct)
  else return checkBlock hdrsize totalsize (← fdt.fdtOffDtStruct) (← fdt.fdtSizeDtStruct)

def fdtCheckHeader : Option Int := do
  if fdt.addr &&& 7 ≠ 0 then return -FDT_ERR_ALIGNMENT
  else if (← fdt.fdtMagic) ≠ FDT_MAGIC then return -FDT_ERR_BADMAGIC
  else
    let version ← fdt.fdtVersion
    if version < FDT_FIRST_SUPPORTED_VERSION then return -FDT_ERR_BADVERSION
    else if (← fdt.fdtLastCompVersion) > FDT_LAST_SUPPORTED_VERSION then return -FDT_ERR_BADVERSION
    else if version < (← fdt.fdtLastCompVersion) then return -FDT_ERR_BADVERSION
    else
      let hdrsize := fdtHeaderSize version
      let totalsize ← fdt.fdtTotalsize
      if totalsize.toNat < hdrsize then return -FDT_ERR_TRUNCATED
      else if totalsize > INT_MAX then return -FDT_ERR_TRUNCATED
      else if (← fdt.fdtOffMemRsvmap).toNat % 8 ≠ 0 then return -FDT_ERR_ALIGNMENT
      else if (← fdt.fdtOffDtStruct).toNat % FDT_TAGSIZE ≠ 0 then return -FDT_ERR_ALIGNMENT
      else if !checkOff (BitVec.ofNat 32 hdrsize) totalsize (← fdt.fdtOffMemRsvmap) then return -FDT_ERR_TRUNCATED
      else if !(← fdt.checkStruct (BitVec.ofNat 32 hdrsize) totalsize version) then return -FDT_ERR_TRUNCATED
      else if !checkBlock (BitVec.ofNat 32 hdrsize) totalsize (← fdt.fdtOffDtStrings) (← fdt.fdtSizeDtStrings) then
        return -FDT_ERR_TRUNCATED
      else return 0

/-! ## Tags -/

/-- The test of `fdt_offset_ptr` that versions from 17 on have. -/
def pastStruct (uoffset len : BitVec 32) : Option Bool := do
  if (← fdt.fdtVersion) ≥ 0x11 then
    if uoffset + len < uoffset then return true
    else return decide (uoffset + len > (← fdt.fdtSizeDtStruct))
  else return false

/-- `fdt_offset_ptr`: a pointer or null. -/
def fdtOffsetPtr (offset : Int) (len : BitVec 32) : Option (Option Nat) := do
  let offDtStruct ← fdt.fdtOffDtStruct
  let uoffset := BitVec.ofInt 32 offset
  let absoffset := uoffset + offDtStruct
  if offset < 0 then return none
  else if absoffset < uoffset ∨ absoffset + len < absoffset then return none
  else if absoffset + len > (← fdt.fdtTotalsize) then return none
  else if ← fdt.pastStruct uoffset len then return none
  else return some (offDtStruct.toNat + offset.toNat)

/-- An iteration of `fdt_next_tag` over the name of a node. -/
def skipNameBody (offset : Int) : Option (Next Int (Option Int)) := do
  match ← fdt.fdtOffsetPtr offset 1 with
  | none => return .leave none
  | some p => if (← fdt.load p) ≠ 0 then return .again (offset + 1) else return .leave (some (offset + 1))

/-- The offset after a name, `none` for a premature end. -/
def skipName : Int → Option (Option Int) := loop fdt.skipNameBody intLimit

/-- The case of `fdt_next_tag` for a property, likewise. -/
def skipProperty (offset : Int) : Option (Option Int) := do
  match ← fdt.fdtOffsetPtr offset 4 with
  | none => return none
  | some lenp =>
    let len ← fdt.fdt32ToCpu lenp
    let sum := len + BitVec.ofInt 32 offset
    if INT_MAX ≤ sum ∨ sum < BitVec.ofInt 32 offset then return none
    else
      let offset := (BitVec.ofInt 32 (offset + (12 - FDT_TAGSIZE + len.toNat))).toInt
      if (← fdt.fdtVersion) < 0x10 ∧ 8 ≤ len ∧ (BitVec.ofInt 32 offset - len).toNat % 8 ≠ 0 then
        return some (offset + 4)
      else return some offset

/-- The offset after a tag and what belongs to it. -/
def skipTag (tag : BitVec 32) (offset : Int) : Option (Option Int) :=
  if tag = FDT_BEGIN_NODE then fdt.skipName offset
  else if tag = FDT_PROP then fdt.skipProperty offset
  else if tag = FDT_END ∨ tag = FDT_END_NODE ∨ tag = FDT_NOP then some (some offset)
  else some none

/-- `FDT_TAGALIGN`. -/
def fdtTagalign (x : Int) : Int := (x + FDT_TAGSIZE - 1) / FDT_TAGSIZE * FDT_TAGSIZE

/-- `fdt_next_tag`: the tag at `startoffset`, and `*nextoffset`. -/
def fdtNextTag (startoffset : Int) : Option (BitVec 32 × Int) := do
  match ← fdt.fdtOffsetPtr startoffset 4 with
  | none => return (FDT_END, -FDT_ERR_TRUNCATED)
  | some tagp =>
    let tag ← fdt.fdt32ToCpu tagp
    match ← fdt.skipTag tag (startoffset + FDT_TAGSIZE) with
    | none => return (FDT_END, -FDT_ERR_BADSTRUCTURE)
    | some offset =>
      match ← fdt.fdtOffsetPtr startoffset (BitVec.ofInt 32 (offset - startoffset)) with
      | none => return (FDT_END, -FDT_ERR_BADSTRUCTURE)
      | some _ => return (tag, fdtTagalign offset)

/-- `fdt_check_node_offset_` and `fdt_check_prop_offset_`, by their tag. -/
def fdtCheckTagOffset (tag : BitVec 32) (offset : Int) : Option Int := do
  if offset < 0 ∨ offset % FDT_TAGSIZE ≠ 0 then return -FDT_ERR_BADOFFSET
  else
    let (found, nextoffset) ← fdt.fdtNextTag offset
    if found ≠ tag then return -FDT_ERR_BADOFFSET else return nextoffset

def fdtCheckNodeOffset := fdt.fdtCheckTagOffset FDT_BEGIN_NODE
def fdtCheckPropOffset := fdt.fdtCheckTagOffset FDT_PROP

/-- An iteration of `fdt_next_node` on `nextoffset` and `*depth`, which is absent for a null `depth`. -/
def nextNodeBody : Int × Option Int → Option (Next (Int × Option Int) (Int × Option Int))
  | (offset, depth) => do
    let (tag, nextoffset) ← fdt.fdtNextTag offset
    if tag = FDT_BEGIN_NODE then return .leave (offset, depth.map (· + 1))
    else if tag = FDT_END_NODE then
      match depth with
      | none => return .again (nextoffset, none)
      | some d =>
        if d - 1 < 0 then return .leave (nextoffset, some (d - 1)) else return .again (nextoffset, some (d - 1))
    else if tag = FDT_END then
      if 0 ≤ nextoffset ∨ (nextoffset = -FDT_ERR_TRUNCATED ∧ depth = none) then
        return .leave (-FDT_ERR_NOTFOUND, depth)
      else return .leave (nextoffset, depth)
    else return .again (nextoffset, depth)

/-- `fdt_next_node`: what it returns, and `*depth`. -/
def fdtNextNode (offset : Int) (depth : Option Int) : Option (Int × Option Int) := do
  let nextoffset ← if 0 ≤ offset then fdt.fdtCheckNodeOffset offset else pure 0
  if nextoffset < 0 then return (nextoffset, depth)
  else loop fdt.nextNodeBody intLimit (nextoffset, depth)

/-! ## Properties -/

/-- An iteration of `nextprop_`. -/
def nextpropBody (offset : Int) : Option (Next Int Int) := do
  let (tag, nextoffset) ← fdt.fdtNextTag offset
  if tag = FDT_END then
    if 0 ≤ nextoffset then return .leave (-FDT_ERR_BADSTRUCTURE) else return .leave nextoffset
  else if tag = FDT_PROP then return .leave offset
  else if tag = FDT_NOP then return .again nextoffset
  else return .leave (-FDT_ERR_NOTFOUND)

def nextprop : Int → Option Int := loop fdt.nextpropBody intLimit

def fdtFirstPropertyOffset (nodeoffset : Int) : Option Int := do
  let offset ← fdt.fdtCheckNodeOffset nodeoffset
  if offset < 0 then return offset else fdt.nextprop offset

def fdtNextPropertyOffset (offset : Int) : Option Int := do
  let offset ← fdt.fdtCheckPropOffset offset
  if offset < 0 then return offset else fdt.nextprop offset

/-- `fdt_get_property_by_offset_`: a pointer or null, and `*lenp`. -/
def fdtGetPropertyByOffset (offset : Int) : Option (Option Nat × Int) := do
  let err ← fdt.fdtCheckPropOffset offset
  if err < 0 then return (none, err)
  else
    let prop := (← fdt.fdtOffDtStruct).toNat + offset.toNat
    return (some prop, (← fdt.fdt32ToCpu (prop + 4)).toInt)

/-- The length that `fdt_get_string` looks at, at most `len`, or an error. -/
def stringLimit (stroffset : Int) (len : BitVec 32) : Option (Except Int (BitVec 32)) := do
  if (← fdt.fdtMagic) = FDT_MAGIC then
    if stroffset < 0 then return .error (-FDT_ERR_BADOFFSET)
    else if (← fdt.fdtVersion) ≥ 17 then
      if BitVec.ofInt 32 stroffset ≥ (← fdt.fdtSizeDtStrings) then return .error (-FDT_ERR_BADOFFSET)
      else if (← fdt.fdtSizeDtStrings) - BitVec.ofInt 32 stroffset < len then
        return .ok ((← fdt.fdtSizeDtStrings) - BitVec.ofInt 32 stroffset)
      else return .ok len
    else return .ok len
  else if (← fdt.fdtMagic) = FDT_SW_MAGIC then
    let swStroffset := BitVec.ofInt 32 (-stroffset)
    if 0 ≤ stroffset then return .error (-FDT_ERR_BADOFFSET)
    else if swStroffset > (← fdt.fdtSizeDtStrings) then return .error (-FDT_ERR_BADOFFSET)
    else if swStroffset < len then return .ok swStroffset
    else return .ok len
  else return .error (-FDT_ERR_INTERNAL)

/-- `fdt_get_string`: a pointer or null, and `*lenp`. -/
def fdtGetString (stroffset : Int) : Option (Option Nat × Int) := do
  let totalsize ← fdt.fdtRoProbe
  if totalsize < 0 then return (none, totalsize)
  else
    let absoffset := BitVec.ofInt 32 stroffset + (← fdt.fdtOffDtStrings)
    if absoffset ≥ BitVec.ofInt 32 totalsize then return (none, -FDT_ERR_BADOFFSET)
    else
      let len := BitVec.ofInt 32 totalsize - absoffset
      match ← fdt.stringLimit stroffset len with
      | .error err => return (none, err)
      | .ok len =>
        match ← memchr (fun i => fdt.load (absoffset.toNat + i)) 0 len.toNat with
        | none => return (none, -FDT_ERR_TRUNCATED)
        | some n => return (some absoffset.toNat, n)

/-- `fdt_string_eq_`, on the `len` bytes at `s`. -/
def fdtStringEq (stroffset : Int) (s : List Byte) (len : Nat) : Option Bool := do
  match ← fdt.fdtGetString stroffset with
  | (none, _) => return false
  | (some p, slen) =>
    if slen = len then return decide ((← memcmp (fun i => fdt.load (p + i)) (fun i => s[i]?) len) = 0)
    else return false

/-- An iteration of `fdt_get_property_namelen_`, which returns a pointer with `*poffset` or null, and `*lenp`. -/
def getPropertyBody (name : List Byte) (namelen : Nat) (offset : Int) :
    Option (Next Int (Option (Nat × Int) × Int)) := do
  if 0 ≤ offset then
    match ← fdt.fdtGetPropertyByOffset offset with
    | (none, _) => return .leave (none, -FDT_ERR_INTERNAL)
    | (some prop, len) =>
      if ← fdt.fdtStringEq (← fdt.fdt32ToCpu (prop + 8)).toInt name namelen then
        return .leave (some (prop, offset), len)
      else return .again (← fdt.fdtNextPropertyOffset offset)
  else return .leave (none, offset)

def fdtGetPropertyNamelen (nodeoffset : Int) (name : List Byte) (namelen : Nat) :
    Option (Option (Nat × Int) × Int) := do
  loop (fdt.getPropertyBody name namelen) intLimit (← fdt.fdtFirstPropertyOffset nodeoffset)

/-- `fdt_getprop_namelen`: a pointer to the value or null, and `*lenp`. -/
def fdtGetpropNamelen (nodeoffset : Int) (name : List Byte) (namelen : Nat) : Option (Option Nat × Int) := do
  match ← fdt.fdtGetPropertyNamelen nodeoffset name namelen with
  | (none, len) => return (none, len)
  | (some (prop, poffset), len) =>
    if (← fdt.fdtVersion) < 0x10 ∧ (poffset + 12) % 8 ≠ 0 ∧ 8 ≤ (← fdt.fdt32ToCpu (prop + 4)) then
      return (some (prop + 12 + 4), len)
    else return (some (prop + 12), len)

def fdtGetprop (nodeoffset : Int) (name : String) : Option (Option Nat × Int) := do
  let s := literal name ++ [0]
  fdt.fdtGetpropNamelen nodeoffset s (← strlen s)

/-- `fdt_path_offset` on "/". -/
def fdtPathOffsetRoot : Option Int := do
  let totalsize ← fdt.fdtRoProbe
  if totalsize < 0 then return totalsize else return 0

def fdtCells (nodeoffset : Int) (name : String) : Option Int := do
  match ← fdt.fdtGetprop nodeoffset name with
  | (none, len) => return len
  | (some c, len) =>
    if len ≠ 4 then return -FDT_ERR_BADNCELLS
    else
      let val ← fdt.fdt32ToCpu c
      if val.toNat > FDT_MAX_NCELLS then return -FDT_ERR_BADNCELLS else return val.toNat

def fdtAddressCells (nodeoffset : Int) : Option Int := do
  let val ← fdt.fdtCells nodeoffset "#address-cells"
  if val = 0 then return -FDT_ERR_BADNCELLS
  else if val = -FDT_ERR_NOTFOUND then return 2
  else return val

def fdtSizeCells (nodeoffset : Int) : Option Int := do
  let val ← fdt.fdtCells nodeoffset "#size-cells"
  if val = -FDT_ERR_NOTFOUND then return 1 else return val

end FdtBlob

end RvOs
