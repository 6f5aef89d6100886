import RvOs.Spec.FlatTree

/-!
# Writing a tree

A tree with names and values (`DtNode`), the bytes of version 17 of the format
that say it (`flatten`), and the tree as it is in these bytes (`DtNode.view`),
where a property is followed by what comes next in memory.
-/

namespace RvOs

/-- A node: its name, its properties and its children. -/
inductive DtNode where
  | node (name : List Byte) (properties : List (String × List Byte)) (children : List DtNode)

/-- `bs` with zeros up to a multiple of 4. -/
def pad (bs : List Byte) : List Byte := bs ++ List.replicate (tagEnd bs.length - bs.length) 0

/-- The strings of `properties`. -/
def stringsOf (properties : List (String × List Byte)) : List Byte :=
  properties.flatMap fun (name, _) => literal name ++ [0]

mutual

def DtNode.strings : DtNode → List Byte
  | .node _ properties children => stringsOf properties ++ DtNode.stringsOfAll children

def DtNode.stringsOfAll : List DtNode → List Byte
  | [] => []
  | n :: ns => n.strings ++ DtNode.stringsOfAll ns

end

/-- The tags of `properties`, with their strings from offset `s` on. -/
def propertyTags : Nat → List (String × List Byte) → List Byte
  | _, [] => []
  | s, (name, value) :: xs =>
    pad (be32 FDT_PROP ++ be32 (BitVec.ofNat 32 value.length) ++ be32 (BitVec.ofNat 32 s) ++ value) ++
      propertyTags (s + (literal name).length + 1) xs

def beginTag (name : List Byte) : List Byte := pad (be32 FDT_BEGIN_NODE ++ name ++ [0])

mutual

/-- The tags of a node, with the strings of its properties from offset `s` on. -/
def DtNode.tags (s : Nat) : DtNode → List Byte
  | .node name properties children =>
    beginTag name ++ propertyTags s properties ++ DtNode.tagsOfAll (s + (stringsOf properties).length) children ++
      be32 FDT_END_NODE

def DtNode.tagsOfAll (s : Nat) : List DtNode → List Byte
  | [] => []
  | n :: ns => n.tags s ++ DtNode.tagsOfAll (s + n.strings.length) ns

end

/-- The structure block. -/
def DtNode.structBlock (root : DtNode) : List Byte := root.tags 0 ++ be32 FDT_END

/-- The header is followed by an empty list of reservations, of one entry. -/
def structStart : Nat := 56

def DtNode.size (root : DtNode) : Nat := structStart + root.structBlock.length + root.strings.length

/-- The header of version 17. -/
def DtNode.header (root : DtNode) : FdtHeader where
  totalsize := BitVec.ofNat 32 root.size
  offDtStruct := BitVec.ofNat 32 structStart
  offDtStrings := BitVec.ofNat 32 (structStart + root.structBlock.length)
  version := 17
  sizeDtStrings := BitVec.ofNat 32 root.strings.length
  sizeDtStruct := BitVec.ofNat 32 root.structBlock.length

/-- The bytes that stand for a tree: the header, the list of reservations, and the two blocks. -/
def flatten (root : DtNode) : List Byte :=
  be32 FDT_MAGIC ++ be32 root.header.totalsize ++ be32 root.header.offDtStruct ++ be32 root.header.offDtStrings ++
    be32 40 ++ be32 root.header.version ++ be32 16 ++ be32 0 ++ be32 root.header.sizeDtStrings ++
    be32 root.header.sizeDtStruct ++ List.replicate 16 0 ++ root.structBlock ++ root.strings

/-- Names that the format has: those of properties are text, and none has a NUL. -/
inductive DtNode.Named : DtNode → Prop where
  | node {name : List Byte} {properties : List (String × List Byte)} {children : List DtNode} (hname : 0 ∉ name)
      (hproperties : ∀ x ∈ properties, Plain x.1) (hchildren : ∀ n ∈ children, n.Named) :
      Named (.node name properties children)

mutual

/-- The properties of a node and of those below it, in document order. -/
def DtNode.nodes : DtNode → List (List (String × List Byte))
  | .node _ properties children => properties :: DtNode.nodesOfAll children

def DtNode.nodesOfAll : List DtNode → List (List (String × List Byte))
  | [] => []
  | n :: ns => n.nodes ++ DtNode.nodesOfAll ns

end

/-- `fdt_getprop` returns the value of each property of a node at `offset`. -/
def FindsValues (fdt : FdtBlob) (offset : Nat) (properties : List (String × List Byte)) : Prop :=
  ∀ name, Plain name → match properties.lookup name with
    | none => fdt.fdtGetprop offset name = some (none, -FDT_ERR_NOTFOUND)
    | some value => ∃ ptr, fdt.fdtGetprop offset name = some (some ptr, (value.length : Int)) ∧ Holds fdt.load ptr value

section

variable (byte : Nat → Byte)

/-- The properties with tags from `p` on in the structure block of the blob `byte`. -/
def viewProperties : Nat → List (String × List Byte) → List FdtProperty
  | _, [] => []
  | p, (name, value) :: xs =>
    ⟨name, value, fun i => byte (structStart + p + 12 + value.length + i)⟩ ::
      viewProperties (tagEnd (p + 12 + value.length)) xs

mutual

/-- The node with tags from `p` on. -/
def DtNode.view (p : Nat) : DtNode → FdtNode
  | .node name properties children =>
    let q := p + (beginTag name).length
    .node (viewProperties byte q properties)
      (DtNode.viewAll (q + (propertyTags 0 properties).length) children)

def DtNode.viewAll (p : Nat) : List DtNode → List FdtNode
  | [] => []
  | n :: ns => n.view p :: DtNode.viewAll (p + (n.tags 0).length) ns

end

/-- Memory from `addr` on: the bytes of a tree, and then any. -/
def memoryBlob (addr : U64) : FdtBlob where
  addr := addr
  load := fun i => some (byte i)

/-- The tree at `addr`. -/
def memoryTree (addr : U64) (root : DtNode) : Fdt where
  addr := addr
  totalsize := byte 7 ++ byte 6 ++ byte 5 ++ byte 4
  headerOk := true
  root := root.view byte 0

end

end RvOs
