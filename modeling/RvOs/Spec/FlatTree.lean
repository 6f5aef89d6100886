import RvOs.Framework.Bytes
import RvOs.Spec.Libfdt

/-!
# The flattened format

Which trees a blob stands for (`Represents`), by what the format says of its
bytes and not by what libfdt does with them: a node is a tag with its name, its
properties, its children and a closing tag, with FDT_NOP tags between any of
them, and the name of a property is a string of the strings block.
-/

namespace RvOs

/-- The next multiple of 4. -/
def tagEnd (n : Nat) : Nat := (n + 3) / 4 * 4

/-- Characters that are bytes, and none of them NUL. -/
def Plain (name : String) : Prop := ∀ c ∈ name.toList, 0 < c.toNat ∧ c.toNat < 256

instance (name : String) : Decidable (Plain name) :=
  List.decidableBAll (fun c : Char => 0 < c.toNat ∧ c.toNat < 256) name.toList

section

variable (fdt : FdtBlob) (h : FdtHeader)

/-- The structure block holds `bs` at `p`. -/
def InStruct (p : Nat) (bs : List Byte) : Prop :=
  p + bs.length ≤ h.structSize ∧ Holds fdt.load (h.offDtStruct.toNat + p) bs

/-- The strings block has `name` at `nameoff`. -/
def NameAt (nameoff : BitVec 32) (name : String) : Prop :=
  Plain name ∧ nameoff.toNat + (literal name).length + 1 ≤ h.sizeDtStrings.toNat ∧
    Holds fdt.load (h.offDtStrings.toNat + nameoff.toNat) (literal name ++ [0])

/-- A tag of its own. -/
def WordAt (tag : BitVec 32) (p q : Nat) : Prop := InStruct fdt h p (be32 tag) ∧ q = p + 4

/-- FDT_NOP tags. -/
inductive NopsAt : Nat → Nat → Prop where
  | nil (p : Nat) : NopsAt p p
  | cons {p q r : Nat} (nop : WordAt fdt h FDT_NOP p q) (nops : NopsAt q r) : NopsAt p r

/-- A tag that starts a node. -/
def BeginAt (p q : Nat) : Prop :=
  ∃ name, 0 ∉ name ∧ InStruct fdt h p (be32 FDT_BEGIN_NODE ++ name ++ [0]) ∧ q = tagEnd (p + 4 + name.length + 1)

/-- A property `x`, with the bytes that follow it. -/
def PropAt (x : FdtProperty) (p q : Nat) : Prop :=
  ∃ len nameoff : BitVec 32, len.toNat = x.value.length ∧ NameAt fdt h nameoff x.name ∧
    InStruct fdt h p (be32 FDT_PROP ++ be32 len ++ be32 nameoff ++ x.value) ∧
    (∀ i b, fdt.load (h.offDtStruct.toNat + p + 12 + x.value.length + i) = some b → x.after i = b) ∧
    q = tagEnd (p + 12 + x.value.length)

def PropsAt : List FdtProperty → Nat → Nat → Prop
  | [], p, q => p = q
  | x :: xs, p, q => ∃ p1 p2, NopsAt fdt h p p1 ∧ PropAt fdt h x p1 p2 ∧ PropsAt xs p2 q

mutual

def NodeAt : FdtNode → Nat → Nat → Prop
  | .node properties children, p, q => ∃ p1 p2 p3 p4, BeginAt fdt h p p1 ∧ PropsAt fdt h properties p1 p2 ∧
      ChildrenAt children p2 p3 ∧ NopsAt fdt h p3 p4 ∧ WordAt fdt h FDT_END_NODE p4 q

def ChildrenAt : List FdtNode → Nat → Nat → Prop
  | [], p, q => p = q
  | n :: ns, p, q => ∃ p1 p2, NopsAt fdt h p p1 ∧ NodeAt n p1 p2 ∧ ChildrenAt ns p2 q

end

/-- The structure block is that of the tree from `root` on. -/
def TreeAt (root : FdtNode) : Prop :=
  ∃ p q r, NodeAt fdt h root 0 p ∧ NopsAt fdt h p q ∧ WordAt fdt h FDT_END q r

/-- The blob has the tree, in a version that does not move values, and a size that
`fdt_ro_probe_` does not refuse. -/
structure HasTree (root : FdtNode) : Prop where
  accepted : fdt.Accepted h
  version_ge : 16 ≤ h.version.toNat
  totalsize_lt : h.totalsize.toNat < 2 ^ 31 - 1
  covers : fdt.Covers (FdtBlob.readable h + 6)
  tree : TreeAt fdt h root

end

/-! ## What the functions of libfdt are to find -/

section

variable (fdt : FdtBlob) (h : FdtHeader)

/-- The value of `x` is in the blob at `ptr`, with the bytes that follow it. -/
def ValueAt (ptr : Nat) (x : FdtProperty) : Prop :=
  ptr + x.value.length ≤ h.totalsize.toNat ∧ ∀ i b, fdt.load (ptr + i) = some b → x.byte i = b

/-- `fdt_getprop` finds the properties of a node at `offset`, the first of a name, and no others. -/
def LooksUp (offset : Nat) (properties : List FdtProperty) : Prop :=
  ∀ name, Plain name → match fdtGetprop properties name with
    | none => fdt.fdtGetprop offset name = some (none, -FDT_ERR_NOTFOUND)
    | some x => ∃ ptr, fdt.fdtGetprop offset name = some (some ptr, (x.value.length : Int)) ∧ ValueAt fdt h ptr x

/-- `fdt_next_node` goes through `nodes` from `offset` on, and then finds no more. -/
def Visits : Int → List FdtEntry → Prop
  | offset, [] => offset = -FDT_ERR_NOTFOUND
  | offset, node :: nodes => ∃ p : Nat, offset = p ∧ LooksUp fdt h p node.properties ∧
      ∃ next, fdt.fdtNextNode p none = some (next, none) ∧ Visits next nodes

/-- What the calls of `fdt_next_node` return: the first from -1, and each from the offset before. -/
def nodeOffset : Nat → Option Int
  | 0 => (fdt.fdtNextNode (-1) none).map (·.1)
  | i + 1 => do
    let offset ← nodeOffset i
    (fdt.fdtNextNode offset none).map (·.1)

end

/-- The bytes of `blob` are those of `fdt`. -/
structure Represents (blob : FdtBlob) (fdt : Fdt) : Prop where
  addr : blob.addr = fdt.addr
  totalsize : blob.headerTotalsize = some fdt.totalsize
  check : ∃ r, blob.fdtCheckHeader = some r ∧ (fdt.headerOk = true ↔ r = 0)
  tree : fdt.headerOk = true → ∃ h, HasTree blob h fdt.root

end RvOs
