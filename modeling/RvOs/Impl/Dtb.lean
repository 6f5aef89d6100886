import RvOs.Impl.Uart

/-!
# The device tree

`DTB.cpp`, with what it uses of libfdt on a tree: `fdt_next_node` finds the
nodes in document order, `fdt_getprop` a property by its name, and
`fdt_address_cells` and `fdt_size_cells` read cell counts with their defaults.
A property is a value in the blob and the bytes that follow it there.
-/

namespace RvOs

structure FdtProperty where
  name : String
  value : List Byte
  /-- The bytes of the blob after the value. -/
  after : Nat → Byte

inductive FdtNode where
  | node (properties : List FdtProperty) (children : List FdtNode)

/-- A node as a traversal finds it, with the properties of its parent. -/
structure FdtEntry where
  parent : List FdtProperty
  properties : List FdtProperty

mutual

/-- The node and those below it in document order. -/
def FdtNode.entries (parent : List FdtProperty) : FdtNode → List FdtEntry
  | .node properties children => ⟨parent, properties⟩ :: FdtNode.entriesOf properties children

def FdtNode.entriesOf (parent : List FdtProperty) : List FdtNode → List FdtEntry
  | [] => []
  | n :: ns => n.entries parent ++ FdtNode.entriesOf parent ns

end

def FdtNode.properties : FdtNode → List FdtProperty
  | .node properties _ => properties

/-- A device tree blob: where it is, its header and its root node. -/
structure Fdt where
  addr : U64
  /-- `totalsize` of the header, as a little-endian load reads it. -/
  totalsize : BitVec 32
  /-- `fdt_check_header` returns 0. -/
  headerOk : Bool
  root : FdtNode

/-- The nodes from the root on. -/
def Fdt.entries (fdt : Fdt) : List FdtEntry := fdt.root.entries []

/-! ## libfdt -/

/-- The byte at index `i` of the pointer `fdt_getprop` returns. -/
def FdtProperty.byte (p : FdtProperty) (i : Nat) : Byte :=
  if h : i < p.value.length then p.value.get ⟨i, h⟩ else p.after (i - p.value.length)

/-- `fdt32_to_cpu(cells[i])`. -/
def FdtProperty.cell (p : FdtProperty) (i : Nat) : BitVec 32 :=
  p.byte (4 * i) ++ p.byte (4 * i + 1) ++ p.byte (4 * i + 2) ++ p.byte (4 * i + 3)

def fdtGetprop (properties : List FdtProperty) (name : String) : Option FdtProperty :=
  properties.find? fun p => p.name == name

def FDT_ERR_NOTFOUND : Int := 1
def FDT_ERR_BADNCELLS : Int := 14
def FDT_MAX_NCELLS : Nat := 4

def fdtCells (properties : List FdtProperty) (name : String) : Int :=
  match fdtGetprop properties name with
  | none => -FDT_ERR_NOTFOUND
  | some c =>
    if c.value.length ≠ 4 then -FDT_ERR_BADNCELLS
    else if FDT_MAX_NCELLS < (c.cell 0).toNat then -FDT_ERR_BADNCELLS
    else (c.cell 0).toNat

def fdtAddressCells (properties : List FdtProperty) : Int :=
  let val := fdtCells properties "#address-cells"
  if val = 0 then -FDT_ERR_BADNCELLS
  else if val = -FDT_ERR_NOTFOUND then 2
  else val

def fdtSizeCells (properties : List FdtProperty) : Int :=
  let val := fdtCells properties "#size-cells"
  if val = -FDT_ERR_NOTFOUND then 1 else val

/-! ## `DTB.cpp` -/

def be32ToCpu (value : BitVec 32) : BitVec 32 :=
  ((value &&& 0x000000FF) <<< 24) ||| ((value &&& 0x0000FF00) <<< 8) |||
    ((value &&& 0x00FF0000) >>> 8) ||| ((value &&& 0xFF000000) >>> 24)

/-- `read_cells` on the cells from `start` on. -/
def readCells (cells : FdtProperty) (start : Nat) : Nat → U64
  | 0 => 0
  | n + 1 => (readCells cells start n <<< 32) ||| (cells.cell (start + n)).setWidth 64

/-- The two functions `get_root_addr_cells` and `get_root_size_cells`, by the
function of libfdt they call; `gDtb` is `none` for a null `g_dtb`. -/
def getRootCells (cells : List FdtProperty → Int) (gDtb : Option Fdt) : Int :=
  match gDtb with
  | none => -1
  | some fdt =>
    let value := cells fdt.root.properties
    if 0 < value then value else -1

def getRootAddrCells := getRootCells fdtAddressCells
def getRootSizeCells := getRootCells fdtSizeCells

/-- `g_dtb` after `dtb_init`, which returns true if it is set. -/
def dtbInit (dtb : Fdt) : Option Fdt :=
  if dtb.addr = 0 then none
  else if !dtb.headerOk then none
  else some dtb

/-- The bytes of `text` are those of `s` from index `i` on, compared one by one. -/
def matchesAt (s : Nat → Byte) : Nat → List Byte → Bool
  | _, [] => true
  | i, c :: text => s i == c && matchesAt s (i + 1) text

/-- The first node whose `device_type` starts with "memory". -/
def memoryNode (nodes : List FdtEntry) : Option FdtEntry :=
  nodes.find? fun node =>
    match fdtGetprop node.properties "device_type" with
    | none => false
    | some deviceType => decide (6 ≤ deviceType.value.length) && matchesAt deviceType.byte 0 (literal "memory")

/-- What `dtb_get_memory_range` returns, with `base_out` and `size_out`. -/
def dtbGetMemoryRange (gDtb : Option Fdt) : Bool × U64 × U64 :=
  match gDtb with
  | none => (false, 0, 0)
  | some fdt =>
    let addrCells := getRootAddrCells gDtb
    let sizeCells := getRootSizeCells gDtb
    if addrCells ≤ 0 ∨ sizeCells ≤ 0 then (false, 0, 0)
    else
      match memoryNode fdt.entries with
      | none => (false, 0, 0)
      | some node =>
        match fdtGetprop node.properties "reg" with
        | none => (false, 0, 0)
        | some reg =>
          let entryBytes := (addrCells + sizeCells) * 4
          if reg.value.length < entryBytes then (false, 0, 0)
          else (true, readCells reg 0 addrCells.toNat, readCells reg addrCells.toNat sizeCells.toNat)

section Scan

variable (compatible : Nat → Byte) (compatLen : Nat)

def matchedNs16550 (i : Nat) : Bool := matchesAt compatible i (literal "ns16550")
def matchedUart (i : Nat) : Bool := matchesAt compatible i (literal "uart")

/-- The inner loop: `i` at the end of the string it is in. -/
def skipString : Nat → Nat → Nat
  | 0, i => i
  | fuel + 1, i => if i < compatLen ∧ compatible i ≠ 0 then skipString fuel (i + 1) else i

/-- The outer loop from index `i` on. -/
def scanCompatible : Nat → Nat → Bool
  | 0, _ => false
  | fuel + 1, i =>
    if i < compatLen then
      if matchedNs16550 compatible i || matchedUart compatible i then true
      else scanCompatible fuel (skipString compatible compatLen compatLen i + 1)
    else false

/-- `looks_like_uart` after the loop, which moves `i` on at each of its at most
`compat_len` iterations. -/
def looksLikeUart : Bool := scanCompatible compatible compatLen compatLen 0

end Scan

/-- The loop of `dtb_get_uart_base` over the nodes. -/
def uartBaseLoop (addrCells : Int) : List FdtEntry → Bool × U64
  | [] => (false, 0)
  | node :: nodes =>
    match fdtGetprop node.properties "compatible" with
    | none => uartBaseLoop addrCells nodes
    | some compatible =>
      if compatible.value.length = 0 then uartBaseLoop addrCells nodes
      else if !looksLikeUart compatible.byte compatible.value.length then uartBaseLoop addrCells nodes
      else
        match fdtGetprop node.properties "reg" with
        | none => uartBaseLoop addrCells nodes
        | some reg =>
          if reg.value.length < addrCells * 4 then uartBaseLoop addrCells nodes
          else (true, readCells reg 0 addrCells.toNat)

/-- What `dtb_get_uart_base` returns, with `uart_base_out`. -/
def dtbGetUartBase (gDtb : Option Fdt) : Bool × U64 :=
  match gDtb with
  | none => (false, 0)
  | some fdt =>
    let addrCells := getRootAddrCells gDtb
    if addrCells ≤ 0 then (false, 0) else uartBaseLoop addrCells fdt.entries

/-- The symbols that `platform_info_init` reads. -/
structure ImageSymbols where
  kernelStart : U64
  kernelEnd : U64
  bssStart : U64
  bssEnd : U64

/-- What `platform_info_init` returns, with the caller's `platform` after it. -/
def platformInfoInit (image : ImageSymbols) (platform : PlatformInfo) (dtb : Fdt) : Bool × PlatformInfo :=
  let platform := { platform with dtbAddr := dtb.addr }
  let platform := { platform with dtbSize := (be32ToCpu dtb.totalsize).setWidth 64 }
  let platform := { platform with dtbEnd := platform.dtbAddr + platform.dtbSize }
  let gDtb := dtbInit dtb
  if gDtb.isNone then (false, platform)
  else
    let (ok, uartBase) := dtbGetUartBase gDtb
    let platform := { platform with uartBase }
    if !ok then (false, platform)
    else
      let (ok, ramBase, ramSize) := dtbGetMemoryRange gDtb
      let platform := { platform with ramBase, ramSize }
      if !ok then (false, platform)
      else
        (true, { platform with
          kernelStart := image.kernelStart
          kernelEnd := image.kernelEnd
          bssStart := image.bssStart
          bssEnd := image.bssEnd })

end RvOs
