import RvOs.Spec.CompatibleScan

/-!
# The UART in the device tree

What `dtb_get_uart_base` is to return: the address of the first serial node,
decoded with the `#address-cells` of its parent (`uartAddress`). The code takes
those of the root, which are the same as long as every serial node that it comes
by has a bus of the root's width (`OneWidth`). A width is a number of address
cells by node, `none` where there is none to decode with.
-/

namespace RvOs

/-- A property of cells. -/
def cellsProperty (name : String) (cells : List (BitVec 32)) : FdtProperty where
  name := name
  value := cells.flatMap fun c => [c.extractLsb' 24 8, c.extractLsb' 16 8, c.extractLsb' 8 8, c.extractLsb' 0 8]
  after := fun _ => 0

/-- A property of one string. -/
def stringProperty (name text : String) : FdtProperty where
  name := name
  value := literal text ++ [0]
  after := fun _ => 0

/-- The unsigned big-endian integer in the first `n` cells. -/
def FdtProperty.number (p : FdtProperty) : Nat → Nat
  | 0 => 0
  | n + 1 => p.number n * 2 ^ 32 + (p.cell n).toNat

/-- The nodes up to the first one that `p` picks, with this one. -/
def Fdt.upTo (fdt : Fdt) (p : FdtEntry → Bool) : List FdtEntry := fdt.entries.take (fdt.entries.findIdx p + 1)

/-! ## Widths -/

/-- A cell count of the root: `default` if it is absent, and 0 if it is not a
number from 0 to 4 in one cell. -/
def Fdt.cellCount (fdt : Fdt) (name : String) (default : Nat) : Nat :=
  match fdtGetprop fdt.root.properties name with
  | none => default
  | some c => if c.value.length = 4 ∧ (c.cell 0).toNat ≤ 4 then (c.cell 0).toNat else 0

def Fdt.addressCells (fdt : Fdt) : Nat := fdt.cellCount "#address-cells" 2

/-- The `#address-cells` of the root, for every node. -/
def rootCells (fdt : Fdt) (_ : FdtEntry) : Option Nat := if 0 < fdt.addressCells then some fdt.addressCells else none

/-- The `#address-cells` of a node's parent: 2 if it has none, and no width if it is not a
positive number in one cell. -/
def ownCells (node : FdtEntry) : Option Nat :=
  match fdtGetprop node.parent "#address-cells" with
  | none => some 2
  | some c => if c.value.length = 4 ∧ c.cell 0 ≠ 0 then some (c.cell 0).toNat else none

/-! ## Serial nodes -/

/-- Some entry of `compatible` starts with ns16550 or uart. -/
def FdtEntry.isSerial (node : FdtEntry) : Bool :=
  match fdtGetprop node.properties "compatible" with
  | none => false
  | some compatible => compatible.strings.any startsSerial

/-- The address cells of a node: the width, and the `reg` that has that many cells at least. -/
def FdtEntry.address (width : FdtEntry → Option Nat) (node : FdtEntry) : Option (Nat × FdtProperty) :=
  match width node, fdtGetprop node.properties "reg" with
  | some n, some reg => if 4 * n ≤ reg.value.length then some (n, reg) else none
  | _, _ => none

/-- The address cells of a node that `serial` picks. -/
def FdtEntry.serialAddress (serial : FdtEntry → Bool) (width : FdtEntry → Option Nat) (node : FdtEntry) :
    Option (Nat × FdtProperty) :=
  if serial node then node.address width else none

/-- The address of the first serial node with a long enough `reg`. -/
def uartAddress (fdt : Fdt) : Option Nat :=
  (fdt.entries.findSome? (FdtEntry.serialAddress FdtEntry.isSerial ownCells)).map fun (n, reg) => reg.number n

/-- `dtb_get_uart_base` returns that address, and false if there is none. -/
def UartDecoded (fdt : Fdt) : Prop :=
  match uartAddress fdt with
  | some address => (dtbGetUartBase (some fdt)).1 = true ∧ (dtbGetUartBase (some fdt)).2.toNat = address
  | none => (dtbGetUartBase (some fdt)).1 = false

/-- Up to the first serial node with a long enough `reg`, and in this one: no
`compatible` is cut short, and a serial node is on a bus of the root's width, or
its `reg` is too short for both widths. -/
def OneWidth (fdt : Fdt) : Prop :=
  ∀ node ∈ fdt.upTo fun node => (node.serialAddress FdtEntry.isSerial ownCells).isSome,
    (∀ compatible ∈ fdtGetprop node.properties "compatible", ¬ CutShort compatible.strings) ∧
      (node.isSerial = true → ownCells node = rootCells fdt node ∨
        node.address ownCells = none ∧ node.address (rootCells fdt) = none)

instance (fdt : Fdt) : Decidable (OneWidth fdt) := inferInstanceAs (Decidable (∀ _ ∈ _, _ ∧ _))

end RvOs
