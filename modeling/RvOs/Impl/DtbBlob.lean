import RvOs.Impl.Libfdt

/-!
# The device tree in memory

`DTB.cpp` on the bytes of a blob, with libfdt as it is there. Results are as in
libfdt's functions: `none` for a load that fails and a loop that does not end.
-/

namespace RvOs.FdtBlob

/-- `read_cells` on the cells at `cells`. -/
def readCells (fdt : FdtBlob) (cells : Nat) : Nat → Option U64
  | 0 => some 0
  | n + 1 => do
    let value ← readCells fdt cells n
    let cell ← fdt.fdt32ToCpu (cells + 4 * n)
    return (value <<< 32) ||| cell.setWidth 64

/-- `get_root_addr_cells` and `get_root_size_cells`, by the function of libfdt they call. -/
def getRootCells (cells : FdtBlob → Int → Option Int) (gDtb : Option FdtBlob) : Option Int :=
  match gDtb with
  | none => some (-1)
  | some fdt => do
    let root ← fdt.fdtPathOffsetRoot
    if root < 0 then return -1
    else
      let value ← cells fdt root
      if 0 < value then return value else return -1

def getRootAddrCells := getRootCells fdtAddressCells
def getRootSizeCells := getRootCells fdtSizeCells

/-- `g_dtb` after `dtb_init`, which returns true if it is set. -/
def dtbInit (dtb : FdtBlob) : Option (Option FdtBlob) :=
  if dtb.addr = 0 then some none
  else do
    if (← dtb.fdtCheckHeader) ≠ 0 then return none else return some dtb

section Nodes

variable (fdt : FdtBlob)

/-- The test of `dtb_get_memory_range` on a node. -/
def isMemoryNode (node : Int) : Option Bool := do
  match ← fdt.fdtGetprop node "device_type" with
  | (none, _) => return false
  | (some deviceType, len) =>
    if 6 ≤ len then matchesIn (fun i => fdt.load (deviceType + i)) 0 (literal "memory") else return false

/-- An iteration of the loop of `dtb_get_memory_range`, which returns `memory_node`. -/
def memoryNodeBody (node : Int) : Option (Next Int Int) := do
  if 0 ≤ node then
    if ← fdt.isMemoryNode node then return .leave node
    else return .again (← fdt.fdtNextNode node none).1
  else return .leave (-1)

/-- What `dtb_get_uart_base` returns at a node, `none` for a `continue`. -/
def uartAtNode (addrCells node : Int) : Option (Option U64) := do
  match ← fdt.fdtGetprop node "compatible" with
  | (none, _) => return none
  | (some compatible, compatLen) =>
    if compatLen ≤ 0 then return none
    else if !(← scanCompatibleIn (fun i => fdt.load (compatible + i)) compatLen.toNat 0) then return none
    else
      match ← fdt.fdtGetprop node "reg" with
      | (none, _) => return none
      | (some reg, regLen) =>
        if regLen < addrCells * 4 then return none else return some (← fdt.readCells reg addrCells.toNat)

/-- An iteration of the loop of `dtb_get_uart_base`. -/
def uartBaseBody (addrCells node : Int) : Option (Next Int (Bool × U64)) := do
  if 0 ≤ node then
    match ← fdt.uartAtNode addrCells node with
    | some uartBase => return .leave (true, uartBase)
    | none => return .again (← fdt.fdtNextNode node none).1
  else return .leave (false, 0)

end Nodes

/-- What `dtb_get_memory_range` returns, with `base_out` and `size_out`. -/
def dtbGetMemoryRange (gDtb : Option FdtBlob) : Option (Bool × U64 × U64) :=
  match gDtb with
  | none => some (false, 0, 0)
  | some fdt => do
    let addrCells ← getRootAddrCells gDtb
    let sizeCells ← getRootSizeCells gDtb
    if addrCells ≤ 0 ∨ sizeCells ≤ 0 then return (false, 0, 0)
    else
      let memoryNode ← loop fdt.memoryNodeBody intLimit (← fdt.fdtNextNode (-1) none).1
      if memoryNode < 0 then return (false, 0, 0)
      else
        match ← fdt.fdtGetprop memoryNode "reg" with
        | (none, _) => return (false, 0, 0)
        | (some reg, regLen) =>
          let entryBytes := (addrCells + sizeCells) * 4
          if regLen < entryBytes then return (false, 0, 0)
          else
            return (true, ← fdt.readCells reg addrCells.toNat,
              ← fdt.readCells (reg + 4 * addrCells.toNat) sizeCells.toNat)

/-- What `dtb_get_uart_base` returns, with `uart_base_out`. -/
def dtbGetUartBase (gDtb : Option FdtBlob) : Option (Bool × U64) :=
  match gDtb with
  | none => some (false, 0)
  | some fdt => do
    let addrCells ← getRootAddrCells gDtb
    if addrCells ≤ 0 then return (false, 0)
    else loop (fdt.uartBaseBody addrCells) intLimit (← fdt.fdtNextNode (-1) none).1

/-- `header->totalsize`, as the little-endian load has it. -/
def headerTotalsize (dtb : FdtBlob) : Option (BitVec 32) := do
  let b0 ← dtb.load 4
  let b1 ← dtb.load 5
  let b2 ← dtb.load 6
  let b3 ← dtb.load 7
  return b3 ++ b2 ++ b1 ++ b0

/-- What `platform_info_init` returns, with the caller's `platform` after it. -/
def platformInfoInit (image : ImageSymbols) (platform : PlatformInfo) (dtb : FdtBlob) :
    Option (Bool × PlatformInfo) := do
  let platform := { platform with dtbAddr := dtb.addr }
  let platform := { platform with dtbSize := (be32ToCpu (← dtb.headerTotalsize)).setWidth 64 }
  let platform := { platform with dtbEnd := platform.dtbAddr + platform.dtbSize }
  let gDtb ← dtb.dtbInit
  if gDtb.isNone then return (false, platform)
  else
    let (ok, uartBase) ← dtbGetUartBase gDtb
    let platform := { platform with uartBase }
    if !ok then return (false, platform)
    else
      let (ok, ramBase, ramSize) ← dtbGetMemoryRange gDtb
      let platform := { platform with ramBase, ramSize }
      if !ok then return (false, platform)
      else
        return (true, { platform with
          kernelStart := image.kernelStart
          kernelEnd := image.kernelEnd
          bssStart := image.bssStart
          bssEnd := image.bssEnd })

end RvOs.FdtBlob
