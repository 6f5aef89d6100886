import RvOs.Proof.FlatTree
import RvOs.Proof.MemoryNode

/-!
# The device tree from its bytes

The functions of `DTB.cpp` find in the bytes of a tree what they find in the tree.
-/

namespace RvOs

open FdtBlob

variable {fdt : FdtBlob} {h : FdtHeader} {root : FdtNode} {p ptr : Nat} {properties : List FdtProperty}
    {x : FdtProperty}
  {name : String}

section

variable (ht : HasTree fdt h root)

include ht

/-! ## Values -/

/-- The bytes of a value can be loaded, and six more. -/
theorem exists_value {i : Nat} (hx : ValueAt fdt h ptr x) (hi : i < x.value.length + 6) :
    fdt.load (ptr + i) = some (x.byte i) := by
  have hle := hx.1
  obtain ⟨b, hb⟩ := exists_load ht.covers (p := ptr + i) (by rw [readable]; omega)
  rw [hb, hx.2 i b hb]

theorem cell_eq {i : Nat} (hx : ValueAt fdt h ptr x) (hi : 4 * i + 4 ≤ x.value.length) :
    fdt.fdt32ToCpu (ptr + 4 * i) = some (x.cell i) := by
  have hbyte (j : Nat) (hj : j < 4) : fdt.load (ptr + 4 * i + j) = some (x.byte (4 * i + j)) := by
    rw [Nat.add_assoc]
    exact exists_value ht hx (by omega)
  rw [fdt32ToCpu, bind_of_some (show fdt.load (ptr + 4 * i) = _ from hbyte 0 (by omega)),
    bind_of_some (hbyte 1 (by omega)),
    bind_of_some (hbyte 2 (by omega)), bind_of_some (hbyte 3 (by omega))]
  rfl

theorem readCells_eq (start : Nat) {n : Nat} (hx : ValueAt fdt h ptr x) (hle : 4 * (start + n) ≤ x.value.length) :
    fdt.readCells (ptr + 4 * start) n = some (RvOs.readCells x start n) := by
  induction n with
  | zero => rfl
  | succ n ih =>
    rw [FdtBlob.readCells, bind_of_some (ih (by omega)), Nat.add_assoc, ← Nat.mul_add,
      bind_of_some (cell_eq ht hx (i := start + n) (by omega))]
    rfl

/-! ## Cells of the root -/

theorem fdtCells_eq (hl : LooksUp fdt h p properties) (hname : Plain name) :
    fdt.fdtCells p name = some (RvOs.fdtCells properties name) := by
  have hlook := hl name hname
  rw [FdtBlob.fdtCells, RvOs.fdtCells]
  cases hget : RvOs.fdtGetprop properties name with
  | none =>
    rw [hget] at hlook
    rw [bind_of_some hlook]
    rfl
  | some c =>
    rw [hget] at hlook
    obtain ⟨ptr, hptr, hc⟩ := hlook
    rw [bind_of_some hptr]
    dsimp only
    by_cases hlen : c.value.length = 4
    swap
    · rw [if_pos (by omega), if_pos hlen]
      rfl
    rw [if_neg (by omega), if_neg (not_not.mpr hlen),
      bind_of_some (show fdt.fdt32ToCpu ptr = _ from cell_eq ht (i := 0) hc (by omega))]
    exact (apply_ite some _ _ _).symm

theorem fdtAddressCells_eq (hl : LooksUp fdt h p properties) :
    fdt.fdtAddressCells p = some (RvOs.fdtAddressCells properties) := by
  rw [FdtBlob.fdtAddressCells, bind_of_some (fdtCells_eq ht hl (by decide)), RvOs.fdtAddressCells]
  split
  · rfl
  split <;> rfl

theorem fdtSizeCells_eq (hl : LooksUp fdt h p properties) :
    fdt.fdtSizeCells p = some (RvOs.fdtSizeCells properties) := by
  rw [FdtBlob.fdtSizeCells, bind_of_some (fdtCells_eq ht hl (by decide)), RvOs.fdtSizeCells]
  split <;> rfl

theorem getRootCells_eq {tree : Fdt} (hroot : tree.root = root) {cells : FdtBlob → Int → Option Int}
    {cells' : List FdtProperty → Int} (hcells : cells fdt 0 = some (cells' root.properties)) :
    FdtBlob.getRootCells cells (some fdt) = some (RvOs.getRootCells cells' (some tree)) := by
  have hpath : fdt.fdtPathOffsetRoot = some 0 := by
    rw [fdtPathOffsetRoot, bind_of_some (fdtRoProbe_eq ht.accepted), if_pos ht.totalsize_lt, if_neg (by omega)]
    rfl
  rw [FdtBlob.getRootCells, bind_of_some hpath, if_neg (by decide), bind_of_some hcells, RvOs.getRootCells, hroot]
  split <;> rfl

/-! ## The memory node -/

theorem matchesIn_value {text : List Byte} (hx : ValueAt fdt h ptr x) (hlen : text.length ≤ x.value.length) :
    matchesIn (fun i => fdt.load (ptr + i)) 0 text = some (matchesAt x.byte 0 text) := by
  have hload (j : Nat) (hj : j < 0 + text.length) : (fdt.load (ptr + j)).isSome := by
    rw [exists_value ht hx (by omega)]
    rfl
  obtain ⟨r, hr⟩ := matchesIn_total text 0 hload
  rw [hr, matchesAt_of_in (fun hb => hx.2 _ _ hb) text hr]

theorem isMemoryNode_eq {node : FdtEntry} (hl : LooksUp fdt h p node.properties) :
    fdt.isMemoryNode p = some node.looksMemory := by
  have hlook := hl "device_type" (by decide)
  rw [isMemoryNode, FdtEntry.looksMemory]
  cases hget : RvOs.fdtGetprop node.properties "device_type" with
  | none =>
    rw [hget] at hlook
    rw [bind_of_some hlook]
    rfl
  | some x =>
    rw [hget] at hlook
    obtain ⟨ptr, hptr, hx⟩ := hlook
    rw [bind_of_some hptr]
    dsimp only
    by_cases hlen : 6 ≤ x.value.length
    · rw [if_pos (by omega), decide_eq_true hlen, Bool.true_and]
      exact matchesIn_value ht hx hlen
    · rw [if_neg (by omega), decide_eq_false hlen, Bool.false_and]
      rfl

/-- The loop over the nodes stops at the memory node. -/
theorem memoryNode_ends {nodes : List FdtEntry} {offset : Int} (hv : Visits fdt h offset nodes) :
    match nodes.find? FdtEntry.looksMemory with
    | none => Ends fdt.memoryNodeBody offset (-1)
    | some node => ∃ p : Nat, Ends fdt.memoryNodeBody offset p ∧ LooksUp fdt h p node.properties := by
  induction nodes generalizing offset with
  | nil =>
    cases hv
    exact .leave rfl
  | cons node nodes ih =>
    obtain ⟨p, rfl, hl, next, hnext, hv⟩ := hv
    have hrest := ih hv
    have hbody : fdt.memoryNodeBody p =
        if node.looksMemory = true then some (.leave (p : Int)) else some (.again next) := by
      rw [memoryNodeBody, if_pos (by omega), bind_of_some (isMemoryNode_eq ht hl), bind_of_some hnext]
      rfl
    rw [List.find?_cons]
    cases hmem : node.looksMemory with
    | true =>
      rw [if_pos hmem] at hbody
      exact ⟨p, .leave hbody, hl⟩
    | false =>
      rw [if_neg (by rw [hmem]; exact Bool.false_ne_true)] at hbody
      dsimp only
      cases hfind : nodes.find? FdtEntry.looksMemory with
      | none =>
        rw [hfind] at hrest
        exact .again hbody hrest
      | some found =>
        rw [hfind] at hrest
        obtain ⟨p', hends, hl'⟩ := hrest
        exact ⟨p', .again hbody hends, hl'⟩

/-- `dtb_get_memory_range` returns what it does on the tree. -/
theorem dtbGetMemoryRange_eq_tree {tree : Fdt} (hroot : tree.root = root) :
    FdtBlob.dtbGetMemoryRange (some fdt) = some (RvOs.dtbGetMemoryRange (some tree)) := by
  obtain ⟨hl, first, hfirst, hv⟩ := visits_tree ht
  have hc : fdt.Covers (readable h) := fun i hi => ht.covers i (Nat.lt_add_right 6 hi)
  obtain ⟨r, hr⟩ := dtbGetMemoryRange_total ht.accepted hc
  have haddr : FdtBlob.getRootAddrCells (some fdt) = some (RvOs.getRootAddrCells (some tree)) :=
    getRootCells_eq ht hroot (fdtAddressCells_eq ht hl)
  have hsize : FdtBlob.getRootSizeCells (some fdt) = some (RvOs.getRootSizeCells (some tree)) :=
    getRootCells_eq ht hroot (fdtSizeCells_eq ht hl)
  rw [FdtBlob.dtbGetMemoryRange, bind_of_some haddr, bind_of_some hsize] at hr ⊢
  rw [RvOs.dtbGetMemoryRange]
  generalize RvOs.getRootAddrCells (some tree) = addrCells at hr ⊢
  generalize RvOs.getRootSizeCells (some tree) = sizeCells at hr ⊢
  by_cases hcells : addrCells ≤ 0 ∨ sizeCells ≤ 0
  · rw [if_pos hcells, if_pos hcells]
    rfl
  rw [if_neg hcells, bind_of_some hfirst] at hr ⊢
  rw [if_neg hcells, memoryNode_eq, Fdt.entries, hroot]
  obtain ⟨memoryNode, hloop, hr⟩ := Option.bind_eq_some_iff.mp hr
  have hends := memoryNode_ends ht hv
  rw [bind_of_some hloop]
  cases hfind : (root.entries []).find? FdtEntry.looksMemory with
  | none =>
    rw [hfind] at hends
    cases hends.eq hloop
    rfl
  | some node =>
    rw [hfind] at hends
    obtain ⟨p, hends, hl⟩ := hends
    cases hends.eq hloop
    have hlook := hl "reg" (by decide)
    rw [if_neg (by omega)]
    dsimp only
    cases hget : RvOs.fdtGetprop node.properties "reg" with
    | none =>
      rw [hget] at hlook
      rw [bind_of_some hlook]
      rfl
    | some reg =>
      rw [hget] at hlook
      obtain ⟨ptr, hptr, hx⟩ := hlook
      rw [bind_of_some hptr]
      dsimp only
      by_cases hlen : (reg.value.length : Int) < (addrCells + sizeCells) * 4
      · rw [if_pos hlen, if_pos hlen]
        rfl
      rw [if_neg hlen, if_neg hlen, bind_of_some (show fdt.readCells ptr addrCells.toNat = _ from
          readCells_eq ht 0 hx (by omega)),
        bind_of_some (readCells_eq ht _ hx (by omega))]
      rfl

/-! ## The UART -/

theorem uartAtNode_eq {node : FdtEntry} (n : Nat) (hl : LooksUp fdt h p node.properties) :
    fdt.uartAtNode n p = some ((node.serialAddress FdtEntry.looksSerial (fun _ => some n)).map
      fun (n, reg) => RvOs.readCells reg 0 n) := by
  have hlook := hl "compatible" (by decide)
  rw [uartAtNode, FdtEntry.serialAddress]
  cases hget : RvOs.fdtGetprop node.properties "compatible" with
  | none =>
    have hserial : node.looksSerial = false := by rw [FdtEntry.looksSerial, hget]
    rw [hget] at hlook
    rw [bind_of_some hlook, hserial]
    rfl
  | some x =>
    have hserial : node.looksSerial = looksLikeUart x.byte x.value.length := by rw [FdtEntry.looksSerial, hget]
    rw [hget] at hlook
    obtain ⟨ptr, hptr, hx⟩ := hlook
    rw [bind_of_some hptr]
    dsimp only
    by_cases hpos : x.value.length = 0
    · rw [if_pos (by omega), hserial, hpos, looksLikeUart_zero]
      rfl
    obtain ⟨looks, hlooks⟩ := scanCompatibleIn_total (fun i => fdt.load (ptr + i)) x.value.length
      (fun j hj => by rw [exists_value ht hx hj]; rfl) x.value.length 0 (Nat.sub_le ..)
    have heq : looksLikeUart x.byte x.value.length = looks :=
      scanCompatible_of_in (fun hb => hx.2 _ _ hb) (Nat.sub_le ..) hlooks
    rw [if_neg (by omega), Int.toNat_natCast, bind_of_some hlooks, hserial.trans heq]
    cases looks with
    | false => rfl
    | true =>
      have hlook := hl "reg" (by decide)
      rw [if_neg (by decide), if_pos rfl, FdtEntry.address]
      cases hget : RvOs.fdtGetprop node.properties "reg" with
      | none =>
        rw [hget] at hlook
        rw [bind_of_some hlook]
        rfl
      | some reg =>
        rw [hget] at hlook
        obtain ⟨ptr, hptr, hx⟩ := hlook
        rw [bind_of_some hptr]
        dsimp only
        by_cases hlen : 4 * n ≤ reg.value.length
        · rw [if_neg (by omega), if_pos hlen, Int.toNat_natCast, bind_of_some (show fdt.readCells ptr n = _ from
            readCells_eq ht 0 hx (by omega))]
          rfl
        · rw [if_pos (by omega), if_neg hlen]
          rfl

/-- The loop over the nodes stops at the first UART. -/
theorem uartBase_ends (n : Nat) {nodes : List FdtEntry} {offset : Int} (hv : Visits fdt h offset nodes) :
    Ends (fdt.uartBaseBody n) offset (uartBaseLoop n nodes) := by
  induction nodes generalizing offset with
  | nil =>
    cases hv
    exact .leave rfl
  | cons node nodes ih =>
    obtain ⟨p, rfl, hl, next, hnext, hv⟩ := hv
    have hat := uartAtNode_eq ht n hl
    rw [uartBaseLoop_cons]
    cases hfound : node.serialAddress FdtEntry.looksSerial (fun _ => some n) with
    | some found =>
      rw [hfound] at hat
      refine .leave ?_
      rw [uartBaseBody, if_pos (by omega), bind_of_some hat]
      rfl
    | none =>
      rw [hfound] at hat
      refine .again ?_ (ih hv)
      rw [uartBaseBody, if_pos (by omega), bind_of_some hat]
      dsimp only [Option.map_none]
      rw [bind_of_some hnext]
      rfl

/-- `dtb_get_uart_base` returns what it does on the tree. -/
theorem dtbGetUartBase_eq_tree {tree : Fdt} (hroot : tree.root = root) :
    FdtBlob.dtbGetUartBase (some fdt) = some (RvOs.dtbGetUartBase (some tree)) := by
  obtain ⟨hl, first, hfirst, hv⟩ := visits_tree ht
  have hc : fdt.Covers (readable h) := fun i hi => ht.covers i (Nat.lt_add_right 6 hi)
  obtain ⟨r, hr⟩ := dtbGetUartBase_total ht.accepted hc ht.covers
  have haddr : FdtBlob.getRootAddrCells (some fdt) = some (RvOs.getRootAddrCells (some tree)) :=
    getRootCells_eq ht hroot (fdtAddressCells_eq ht hl)
  rw [FdtBlob.dtbGetUartBase, bind_of_some haddr] at hr ⊢
  rw [RvOs.dtbGetUartBase]
  generalize RvOs.getRootAddrCells (some tree) = addrCells at hr ⊢
  by_cases hcells : addrCells ≤ 0
  · rw [if_pos hcells, if_pos hcells]
    rfl
  rw [if_neg hcells, bind_of_some hfirst] at hr ⊢
  obtain ⟨n, rfl⟩ := Int.eq_ofNat_of_zero_le (show 0 ≤ addrCells by omega)
  rw [if_neg hcells, Fdt.entries, hroot, hr, (uartBase_ends ht n hv).eq hr]

end

/-! ## The platform -/

/-- `dtb_init` accepts what it does of the tree. -/
theorem dtbInit_eq_tree {tree : Fdt} (hrep : Represents fdt tree) :
    fdt.dtbInit = some ((RvOs.dtbInit tree).map fun _ => fdt) := by
  obtain ⟨r, hr, hiff⟩ := hrep.check
  rw [FdtBlob.dtbInit, RvOs.dtbInit, hrep.addr]
  by_cases hnull : tree.addr = 0
  · rw [if_pos hnull, if_pos hnull]
    rfl
  rw [if_neg hnull, if_neg hnull, bind_of_some hr]
  cases hok : tree.headerOk with
  | false => exact if_pos fun h0 => absurd (hiff.mpr h0) (by rw [hok]; exact Bool.false_ne_true)
  | true => exact if_neg (not_not.mpr (hiff.mp hok))

end RvOs
