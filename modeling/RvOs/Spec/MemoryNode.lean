import RvOs.Spec.UartNode

/-!
# RAM in the device tree

What `dtb_get_memory_range` is to return: the two numbers in the first entry of
`reg` of the first node whose `device_type` is "memory", in the root's
`#address-cells` and `#size-cells`, if both fit 64 bits (`memoryRange`). The code
compares only the first six bytes of `device_type`, which makes no difference
unless that of a node before this one starts with them too (`NoNearMiss`).
-/

namespace RvOs

def Fdt.sizeCells (fdt : Fdt) : Nat := fdt.cellCount "#size-cells" 1

/-- The cells from cell `n` on. -/
def FdtProperty.skip (p : FdtProperty) (n : Nat) : FdtProperty where
  name := p.name
  value := p.value.drop (4 * n)
  after := fun i => p.byte (4 * n + (p.value.length - 4 * n) + i)

/-- The `device_type` of a node is "memory". -/
def FdtEntry.isMemory (node : FdtEntry) : Bool :=
  match fdtGetprop node.properties "device_type" with
  | none => false
  | some deviceType => deviceType.value == literal "memory" ++ [0]

/-- The `reg` of the first node that `memory` picks, if it has an entry. -/
def Fdt.memoryReg (fdt : Fdt) (memory : FdtEntry → Bool) : Option FdtProperty :=
  if 0 < fdt.addressCells ∧ 0 < fdt.sizeCells then
    ((fdt.entries.find? memory).bind fun node => fdtGetprop node.properties "reg").filter fun reg =>
      (fdt.addressCells + fdt.sizeCells) * 4 ≤ reg.value.length
  else none

/-- The base and the size in the first entry of `reg`. -/
def Fdt.range (fdt : Fdt) (reg : FdtProperty) : Nat × Nat :=
  (reg.number fdt.addressCells, (reg.skip fdt.addressCells).number fdt.sizeCells)

/-- The range of the memory node, if its numbers fit 64 bits. -/
def memoryRange (fdt : Fdt) : Option (Nat × Nat) :=
  ((fdt.memoryReg FdtEntry.isMemory).map fdt.range).filter fun r => r.1 < 2 ^ 64 ∧ r.2 < 2 ^ 64

/-- `dtb_get_memory_range` returns that range, and false with zeros if there is none. -/
def MemoryDecoded (fdt : Fdt) : Prop :=
  match memoryRange fdt with
  | some (base, size) => ∃ b s, dtbGetMemoryRange (some fdt) = (true, b, s) ∧ b.toNat = base ∧ s.toNat = size
  | none => dtbGetMemoryRange (some fdt) = (false, 0, 0)

/-- The `device_type` of a node starts with "memory". -/
def FdtEntry.startsMemory (node : FdtEntry) : Bool :=
  match fdtGetprop node.properties "device_type" with
  | none => false
  | some deviceType => (literal "memory").isPrefixOf deviceType.value

/-- With positive cell counts: up to the first memory node, no other `device_type`
starts with "memory". -/
def NoNearMiss (fdt : Fdt) : Prop := 0 < fdt.addressCells → 0 < fdt.sizeCells →
  ∀ node ∈ fdt.upTo FdtEntry.isMemory, node.startsMemory = true → node.isMemory = true

instance (fdt : Fdt) : Decidable (NoNearMiss fdt) := inferInstanceAs (Decidable (_ → _ → ∀ _ ∈ _, _ → _))

/-- The numbers of the memory node fit 64 bits. -/
def RangeFits (fdt : Fdt) : Prop :=
  ∀ reg ∈ fdt.memoryReg FdtEntry.isMemory, (fdt.range reg).1 < 2 ^ 64 ∧ (fdt.range reg).2 < 2 ^ 64

instance (fdt : Fdt) : Decidable (RangeFits fdt) := inferInstanceAs (Decidable (∀ _ ∈ _, _))

end RvOs
