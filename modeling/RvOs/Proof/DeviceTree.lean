import RvOs.Proof.Console
import RvOs.Proof.Flatten

/-!
# The device tree of a boot

Whatever bytes the boot loader passes, `platform_info_init` returns and stays
in them (`platformInfoInit_inBlob`). If they are those of a tree its nodes are
found in document order (`fdtNextNode_inOrder`), and a tree that is written is
read back (`flatten_read`).
-/

namespace RvOs

open FdtBlob

/-! ## A tree -/

/-- A machine with RAM and a UART. -/
def sampleNode : DtNode :=
  .node [] [("#address-cells", [0, 0, 0, 2]), ("#size-cells", [0, 0, 0, 2])] [
    .node (literal "memory@80000000") [
      ("device_type", literal "memory" ++ [0]),
      ("reg", [0, 0, 0, 0, 0x80, 0, 0, 0, 0, 0, 0, 0, 8, 0, 0, 0])] [],
    .node (literal "soc") [] [
      .node (literal "serial@10000000") [
        ("reg", [0, 0, 0, 0, 0x10, 0, 0, 0, 0, 0, 0, 0, 0, 0, 1, 0]),
        ("compatible", literal "ns16550a" ++ [0])] []]]

theorem sampleNode_named : sampleNode.Named := by
  have hleaf : ∀ {name : List Byte} {properties : List (String × List Byte)}, 0 ∉ name →
      (∀ x ∈ properties, Plain x.1) → (DtNode.node name properties []).Named :=
    fun hname hproperties => .node hname hproperties fun n hn => absurd hn List.not_mem_nil
  refine .node (by decide) (by decide) fun n hn => ?_
  simp only [List.mem_cons, List.not_mem_nil, or_false] at hn
  rcases hn with rfl | rfl
  · exact hleaf (by decide) (by decide)
  · refine .node (by decide) (by decide) fun n hn => ?_
    rw [List.mem_singleton.mp hn]
    exact hleaf (by decide) (by decide)

theorem sampleNode_size : sampleNode.size < 2 ^ 31 - 1 := by decide +kernel

def sampleByte (i : Nat) : Byte := (flatten sampleNode).getD i 0

def sampleBlob : FdtBlob := memoryBlob sampleByte 0x82000000

theorem sampleBlob_holds : Holds sampleBlob.load 0 (flatten sampleNode) := fun i hi => by
  show some (sampleByte (0 + i)) = _
  rw [Nat.zero_add, sampleByte, List.getD_eq_getElem _ _ hi]

theorem sample_represents : Represents sampleBlob (memoryTree sampleByte 0x82000000 sampleNode) :=
  flatten_represents sampleBlob_holds sampleNode_size (by decide) sampleNode_named

/-! ## Any bytes -/

section Bytes

variable {fdt : FdtBlob} {totalsize : BitVec 32} (image : ImageSymbols) (platform : PlatformInfo)

/-- For any bytes `platform_info_init` returns, and it loads none but those of the blob, of the
nine words of a header, and six more. -/
theorem platformInfoInit_inBlob (hsize : fdt.fdtTotalsize = some totalsize)
    (hc : fdt.Covers (max 36 totalsize.toNat + 6)) :
    ∃ r, (fdt.truncate (max 36 totalsize.toNat + 6)).platformInfoInit image platform = some r := by
  have hload : ∀ i < max 36 totalsize.toNat + 6,
      (fdt.truncate (max 36 totalsize.toNat + 6)).load i = fdt.load i := fun i hi => if_pos hi
  have htotal : (fdt.truncate (max 36 totalsize.toNat + 6)).fdtTotalsize = some totalsize := by
    simp only [fdtTotalsize, fdt32ToCpu] at hsize ⊢
    rw [hload 4 (by omega), hload (4 + 1) (by omega), hload (4 + 2) (by omega), hload (4 + 3) (by omega)]
    exact hsize
  apply platformInfoInit_total image platform htotal
  intro i hi
  rw [hload i hi]
  exact hc i hi

/-- A blob of ones, with a size of 16843009 bytes. -/
theorem platformInfoInit_inBlob_sample : ∃ r, ((memoryBlob (fun _ => 1) 0x82000000).truncate
    (max 36 0x01010101 + 6)).platformInfoInit sampleImage .zero = some r := by
  have hsize : (memoryBlob (fun _ => 1) 0x82000000).fdtTotalsize = some 0x01010101 := rfl
  exact platformInfoInit_inBlob sampleImage .zero hsize fun _ _ => rfl

end Bytes

/-! ## Its nodes -/

section Nodes

variable {fdt : FdtBlob} {h : FdtHeader} {root : FdtNode}

theorem nodeOffset_of_visits {nodes : List FdtEntry} {k : Nat} {first : Int} (hk : nodeOffset fdt k = some first)
    (hv : Visits fdt h first nodes) : nodeOffset fdt (k + nodes.length) = some (-FDT_ERR_NOTFOUND) ∧
      ∀ i node, nodes[i]? = some node → ∃ p : Nat, nodeOffset fdt (k + i) = some (p : Int) ∧
        LooksUp fdt h p node.properties := by
  induction nodes generalizing k first with
  | nil => exact ⟨hk.trans (congrArg some hv), fun i node hi => by cases hi⟩
  | cons node nodes ih =>
    obtain ⟨p, rfl, hl, next, hnext, hv⟩ := hv
    have hk1 : nodeOffset fdt (k + 1) = some next := by
      rw [nodeOffset, bind_of_some hk, hnext]
      rfl
    obtain ⟨hend, hrest⟩ := ih hk1 hv
    rw [List.length_cons, Nat.add_comm nodes.length, ← Nat.add_assoc]
    refine ⟨hend, fun i found hi => ?_⟩
    cases i with
    | zero =>
      rw [List.getElem?_cons_zero, Option.some.injEq] at hi
      exact ⟨p, hk, hi ▸ hl⟩
    | succ i =>
      obtain ⟨q, hq, hl'⟩ := hrest i found hi
      rw [Nat.add_assoc, Nat.add_comm 1] at hq
      exact ⟨q, hq, hl'⟩

section Accepted

variable (ha : fdt.Accepted h) (hc : fdt.Covers (readable h))

include ha hc

theorem nodeOffset_bound : ∀ {i : Nat} {offset : Int}, nodeOffset fdt i = some offset → offset < 2 ^ 31
  | 0, offset, hi => by
    obtain ⟨r, d, hnext, hr⟩ := fdtNextNode_total ha hc none (show (-1 : Int) < 2 ^ 31 by decide)
    rw [nodeOffset, hnext] at hi
    have : r = offset := Option.some.inj hi
    omega
  | i + 1, offset, hi => by
    obtain ⟨before, hbefore, hi⟩ := Option.bind_eq_some_iff.mp hi
    obtain ⟨r, d, hnext, hr⟩ := fdtNextNode_total ha hc none (nodeOffset_bound hbefore)
    rw [hnext] at hi
    have : r = offset := Option.some.inj hi
    omega

theorem nodeOffset_lt {i p q : Nat} (hp : nodeOffset fdt i = some (p : Int))
    (hq : nodeOffset fdt (i + 1) = some (q : Int)) : p < q := by
  obtain ⟨r, d, hnext, hr⟩ := fdtNextNode_total ha hc none (nodeOffset_bound ha hc hp)
  rw [nodeOffset, bind_of_some hp, hnext] at hq
  have : r = q := Option.some.inj hq
  omega

end Accepted

/-- `fdt_next_node` finds the nodes of a tree in document order, each at an offset after the one
before, and then no more, and `fdt_getprop` the properties of each. -/
theorem fdtNextNode_inOrder (ht : HasTree fdt h root) :
    nodeOffset fdt (root.entries []).length = some (-FDT_ERR_NOTFOUND) ∧
      ∀ i node, (root.entries [])[i]? = some node → ∃ p : Nat, nodeOffset fdt i = some (p : Int) ∧
        LooksUp fdt h p node.properties ∧ ∀ q : Nat, nodeOffset fdt (i + 1) = some (q : Int) → p < q := by
  obtain ⟨-, first, hfirst, hv⟩ := visits_tree ht
  have hc : fdt.Covers (readable h) := fun i hi => ht.covers i (Nat.lt_add_right 6 hi)
  have h0 : nodeOffset fdt 0 = some first := by
    rw [nodeOffset, hfirst]
    rfl
  obtain ⟨hend, hnodes⟩ := nodeOffset_of_visits h0 hv
  rw [Nat.zero_add] at hend
  refine ⟨hend, fun i node hi => ?_⟩
  obtain ⟨p, hp, hl⟩ := hnodes i node hi
  rw [Nat.zero_add] at hp
  exact ⟨p, hp, hl, fun q hq => nodeOffset_lt ht.accepted hc hp hq⟩

/-- The tree of the machine has four nodes. -/
theorem fdtNextNode_inOrder_sample : nodeOffset sampleBlob 4 = some (-FDT_ERR_NOTFOUND) ∧
    ∃ p : Nat, nodeOffset sampleBlob 3 = some (p : Int) ∧
      ∃ ptr, sampleBlob.fdtGetprop p "compatible" = some (some ptr, 9) := by
  obtain ⟨h, ht⟩ := sample_represents.tree rfl
  obtain ⟨hend, hnodes⟩ := fdtNextNode_inOrder ht
  obtain ⟨p, hp, hl, -⟩ := hnodes 3 _ rfl
  obtain ⟨ptr, hptr, -⟩ := hl "compatible" (by decide)
  exact ⟨hend, p, hp, ptr, hptr⟩

end Nodes

/-! ## The platform -/

/-- `platform_info_init` on the bytes of a tree does what it does on the tree. -/
theorem platformInfoInit_eq_tree (image : ImageSymbols) (platform : PlatformInfo) {fdt : FdtBlob}
    {tree : Fdt} (hrep : Represents fdt tree) :
    fdt.platformInfoInit image platform = some (RvOs.platformInfoInit image platform tree) := by
  rw [FdtBlob.platformInfoInit, bind_of_some hrep.totalsize, bind_of_some (dtbInit_eq_tree hrep), RvOs.platformInfoInit,
    hrep.addr]
  cases hg : RvOs.dtbInit tree with
  | none => rfl
  | some g =>
    have hgtree : g = tree ∧ tree.headerOk = true := by
      rw [RvOs.dtbInit] at hg
      split at hg
      · cases hg
      split at hg
      next hneg => cases hg
      next hpos => exact ⟨(Option.some.inj hg).symm, by simpa using hpos⟩
    obtain ⟨rfl, hok⟩ := hgtree
    obtain ⟨h, ht⟩ := hrep.tree hok
    rw [Option.map_some, if_neg (show ¬ (some fdt).isNone = true from Bool.false_ne_true),
      bind_of_some (dtbGetUartBase_eq_tree ht rfl), if_neg (show ¬ (some g).isNone = true from Bool.false_ne_true)]
    dsimp only
    by_cases hu : (!(RvOs.dtbGetUartBase (some g)).1) = true
    · rw [if_pos hu, if_pos hu]
      rfl
    rw [if_neg hu, if_neg hu, bind_of_some (dtbGetMemoryRange_eq_tree ht rfl)]
    by_cases hm : (!(RvOs.dtbGetMemoryRange (some g)).1) = true
    · rw [if_pos hm, if_pos hm]
      rfl
    · rw [if_neg hm, if_neg hm]
      rfl

/-- The machine has its UART at 0x10000000, and 128 MiB of RAM from 0x80000000 on. -/
theorem platformInfoInit_eq_tree_sample :
    (sampleBlob.platformInfoInit sampleImage .zero).map (fun r => (r.1, r.2.uartBase, r.2.ramBase, r.2.ramSize)) =
      some (true, 0x10000000, 0x80000000, 0x8000000) := by
  rw [platformInfoInit_eq_tree _ _ sample_represents]
  decide +kernel

/-! ## What is written -/

section Written

variable {byte : Nat → Byte} {addr : U64} {root : DtNode}

/-- Where they are does not matter for the names and values. -/
theorem map_viewProperties (p : Nat) (xs : List (String × List Byte)) :
    (viewProperties byte p xs).map (fun x => (x.name, x.value)) = xs := by
  induction xs generalizing p with
  | nil => rfl
  | cons x xs ih => rw [viewProperties, List.map_cons, ih]

theorem map_entries_view {n : DtNode} (hn : n.Named) (parent : List FdtProperty) (p : Nat) :
    ((n.view byte p).entries parent).map (fun e => e.properties.map fun x => (x.name, x.value)) = n.nodes := by
  induction hn generalizing parent p with
  | node hname hproperties hchildren ih =>
    rename_i name properties children
    have hall : ∀ (parent : List FdtProperty) (p : Nat),
        (FdtNode.entriesOf parent (DtNode.viewAll byte p children)).map
          (fun e => e.properties.map fun x => (x.name, x.value)) = DtNode.nodesOfAll children := by
      clear hchildren
      induction children with
      | nil => exact fun parent p => rfl
      | cons n ns ihs =>
        intro parent p
        rw [DtNode.viewAll, FdtNode.entriesOf, List.map_append, ih n List.mem_cons_self,
          ihs fun n hn => ih n (List.mem_cons_of_mem _ hn)]
        rfl
    rw [DtNode.view, FdtNode.entries, List.map_cons, map_viewProperties, hall]
    rfl

theorem lookup_map (name : String) (properties : List FdtProperty) :
    (properties.map fun x => (x.name, x.value)).lookup name = (fdtGetprop properties name).map (·.value) := by
  induction properties with
  | nil => rfl
  | cons x xs ih =>
    rw [List.map_cons, List.lookup_cons, fdtGetprop, List.find?_cons, BEq.comm]
    cases x.name == name with
    | true => rfl
    | false => exact ih

theorem findsValues_of_looksUp {h : FdtHeader} {p : Nat} {properties : List FdtProperty}
    (hl : LooksUp (memoryBlob byte addr) h p properties) :
    FindsValues (memoryBlob byte addr) p (properties.map fun x => (x.name, x.value)) := by
  intro name hname
  have hlook := hl name hname
  rw [lookup_map]
  cases hget : RvOs.fdtGetprop properties name with
  | none =>
    rw [hget] at hlook
    exact hlook
  | some x =>
    rw [hget] at hlook
    obtain ⟨ptr, hptr, -, hvalue⟩ := hlook
    refine ⟨ptr, hptr, fun i hi => ?_⟩
    have hx : x.byte i = byte (ptr + i) := hvalue i _ rfl
    rw [FdtProperty.byte, dif_pos hi] at hx
    exact congrArg some hx.symm

/-- A tree that is written is read back, wherever it is and whatever comes after it: libfdt accepts
the header, finds its nodes in order, and each value under its name. -/
theorem flatten_read (hflat : Holds (memoryBlob byte addr).load 0 (flatten root)) (hsize : root.size < 2 ^ 31 - 1)
    (haddr : addr &&& 7 = 0) (hn : root.Named) :
    (memoryBlob byte addr).fdtCheckHeader = some 0 ∧
      nodeOffset (memoryBlob byte addr) root.nodes.length = some (-FDT_ERR_NOTFOUND) ∧
      ∀ i properties, root.nodes[i]? = some properties → ∃ p : Nat,
        nodeOffset (memoryBlob byte addr) i = some (p : Int) ∧ FindsValues (memoryBlob byte addr) p properties := by
  obtain ⟨h, ht⟩ := (flatten_represents hflat hsize haddr hn).tree rfl
  obtain ⟨-, first, hfirst, hv⟩ := visits_tree ht
  have h0 : nodeOffset (memoryBlob byte addr) 0 = some first := by
    rw [nodeOffset, hfirst]
    rfl
  obtain ⟨hend, hnodes⟩ := nodeOffset_of_visits h0 hv
  have hview : ((memoryTree byte addr root).root.entries []).map
      (fun e => e.properties.map fun x => (x.name, x.value)) = root.nodes := map_entries_view hn [] 0
  refine ⟨flatten_check hflat hsize haddr, ?_, fun i properties hi => ?_⟩
  · rw [← hview, List.length_map, ← hend, Nat.zero_add]
  · rw [← hview, List.getElem?_map, Option.map_eq_some_iff] at hi
    obtain ⟨node, hnode, rfl⟩ := hi
    obtain ⟨p, hp, hl⟩ := hnodes i node hnode
    rw [Nat.zero_add] at hp
    exact ⟨p, hp, findsValues_of_looksUp hl⟩

/-- The third node of the machine has no properties. -/
theorem flatten_read_sample : ∃ p : Nat, nodeOffset sampleBlob 2 = some (p : Int) ∧
    sampleBlob.fdtGetprop p "reg" = some (none, -FDT_ERR_NOTFOUND) := by
  obtain ⟨-, -, hnodes⟩ := flatten_read sampleBlob_holds sampleNode_size (by decide) sampleNode_named
  obtain ⟨p, hp, hfinds⟩ := hnodes 2 [] rfl
  exact ⟨p, hp, hfinds "reg" (by decide)⟩

end Written

end RvOs
