import RvOs.Proof.Libfdt

/-!
# The device tree is read in the blob
-/

namespace RvOs.FdtBlob

variable {fdt : FdtBlob} {h : FdtHeader} {n : Nat} {node : Int}

/-! ## Bytes -/

theorem readCells_total {p count : Nat} (hc : fdt.Covers n) (hle : p + 4 * count ≤ n) :
    ∃ v, fdt.readCells p count = some v := by
  induction count with
  | zero => exact ⟨0, rfl⟩
  | succ count ih =>
    obtain ⟨v, hv⟩ := ih (by omega)
    obtain ⟨w, hw⟩ := exists_fdt32 hc (p := p + 4 * count) (by omega)
    rw [readCells, bind_of_some hv, bind_of_some hw]
    exact ⟨_, rfl⟩

theorem matchesIn_total {load : Nat → Option Byte} (text : List Byte) (i : Nat)
    (hl : ∀ j < i + text.length, (load j).isSome) :
    ∃ r, matchesIn load i text = some r := by
  induction text generalizing i with
  | nil => exact ⟨true, rfl⟩
  | cons c text ih =>
    rw [List.length_cons] at hl
    obtain ⟨b, hb⟩ := Option.isSome_iff_exists.mp (hl i (by omega))
    rw [matchesIn, bind_of_some hb]
    by_cases hbc : b = c
    · obtain ⟨r, hr⟩ := ih (i + 1) fun j hj => hl j (by omega)
      exact ⟨r, (if_pos hbc).trans hr⟩
    · exact ⟨_, if_neg hbc⟩

theorem skipStringIn_total {load : Nat → Option Byte} {len : Nat} (hl : ∀ j < len, (load j).isSome) (k : Nat) :
    ∀ i, len - i ≤ k → ∃ j, skipStringIn load len i = some j := by
  induction k with
  | zero =>
    intro i hk
    rw [skipStringIn, if_neg (by omega)]
    exact ⟨_, rfl⟩
  | succ k ih =>
    intro i hk
    rw [skipStringIn]
    by_cases hi : i < len
    swap
    · exact ⟨_, if_neg hi⟩
    obtain ⟨b, hb⟩ := Option.isSome_iff_exists.mp (hl i hi)
    rw [if_pos hi, bind_of_some hb]
    by_cases hb0 : b ≠ 0
    · obtain ⟨j, hj⟩ := ih (i + 1) (by omega)
      rw [if_pos hb0, bind_of_some hj]
      exact ⟨_, rfl⟩
    · exact ⟨_, if_neg hb0⟩

/-- The scan of `compatible` reads at most six bytes after the property. -/
theorem scanCompatibleIn_total (load : Nat → Option Byte) (len : Nat) (hl : ∀ j < len + 6, (load j).isSome) (k : Nat) :
    ∀ i, len - i ≤ k → ∃ r, scanCompatibleIn load len i = some r := by
  induction k with
  | zero =>
    intro i hk
    exact ⟨false, by rw [scanCompatibleIn, if_neg (by omega)]⟩
  | succ k ih =>
    intro i hk
    rw [scanCompatibleIn]
    by_cases hi : i < len
    swap
    · exact ⟨_, if_neg hi⟩
    have hns : (literal "ns16550").length = 7 := rfl
    have huart : (literal "uart").length = 4 := rfl
    obtain ⟨ns, hns⟩ := matchesIn_total (literal "ns16550") i fun j hj => hl j (by omega)
    obtain ⟨uart, huart⟩ := matchesIn_total (literal "uart") i fun j hj => hl j (by omega)
    rw [if_pos hi, bind_of_some hns, bind_of_some huart]
    by_cases hm : (ns || uart) = true
    · exact ⟨_, if_pos hm⟩
    obtain ⟨j, hj⟩ := skipStringIn_total (fun j hj => hl j (by omega)) (k + 1) i hk
    have hle := j.property
    obtain ⟨r, hr⟩ := ih (j + 1) (by omega)
    rw [if_neg hm, bind_of_some hj]
    exact ⟨r, hr⟩

section

variable (ha : fdt.Accepted h) (hc : fdt.Covers (readable h))

include ha hc

/-! ## Cells of the root -/

omit hc in
theorem getRootCells_total {cells : FdtBlob → Int → Option Int}
    (hcells : ∀ offset < 2 ^ 31, ∃ r, cells fdt offset = some r) :
    ∃ r, getRootCells cells (some fdt) = some r := by
  have htotal := ha.totalsize_lt
  have hroot : ∃ root, fdt.fdtPathOffsetRoot = some root ∧ root < 2 ^ 31 := by
    rw [fdtPathOffsetRoot, bind_of_some (fdtRoProbe_eq ha)]
    split
    · exact ⟨_, if_neg (by omega), by decide⟩
    · exact ⟨_, if_pos (by decide), by decide⟩
  obtain ⟨root, hroot, hlt⟩ := hroot
  obtain ⟨value, hvalue⟩ := hcells root hlt
  rw [getRootCells, bind_of_some hroot]
  split
  · exact ⟨_, rfl⟩
  rw [bind_of_some hvalue]
  split <;> exact ⟨_, rfl⟩

/-! ## Nodes -/

theorem isMemoryNode_total (hlt : node < 2 ^ 31) : ∃ r, fdt.isMemoryNode node = some r := by
  obtain ⟨p, len, hp, hin⟩ := fdtGetprop_total ha hc "device_type" hlt
  rw [isMemoryNode, bind_of_some hp]
  cases p with
  | none => exact ⟨_, rfl⟩
  | some p =>
    have hle := hin p rfl
    have htext : (literal "memory").length = 6 := rfl
    dsimp only
    by_cases hlen : 6 ≤ len
    · rw [if_pos hlen]
      exact matchesIn_total _ _ fun j hj => hc _ (by rw [readable]; omega)
    · exact ⟨_, if_neg hlen⟩

/-- A loop over the nodes ends, where its iterations do. -/
theorem loop_nodes_total {α : Type} (body : Int → Option (Next Int α)) (post : α → Prop)
    (hbody : ∀ node < 2 ^ 31, (∃ a, body node = some (.leave a) ∧ post a) ∨
      0 ≤ node ∧ ∃ next d, fdt.fdtNextNode node none = some (next, d) ∧ body node = some (.again next)) :
    ∃ first d, fdt.fdtNextNode (-1) none = some (first, d) ∧ ∃ a, loop body intLimit first = some a ∧ post a := by
  obtain ⟨first, d, hfirst, hread⟩ := fdtNextNode_total ha hc none (show (-1 : Int) < 2 ^ 31 by decide)
  refine ⟨first, d, hfirst, ?_⟩
  refine loop_total (fun node => node < 2 ^ 31 - 1) (fun node => if 0 ≤ node then 2 ^ 31 - 1 - node.toNat else 0) post
    (fun node hlt => ?_) (show first < 2 ^ 31 - 1 by omega) (by rw [intLimit]; split <;> omega)
  rcases hbody node (by omega) with hleave | ⟨h0, next, d, hnext, hagain⟩
  · exact .inr hleave
  obtain ⟨next', d', hnext', hread⟩ := fdtNextNode_total ha hc none (show node < 2 ^ 31 by omega)
  rw [hnext'] at hnext
  cases hnext
  refine .inl ⟨_, hagain, show next < 2 ^ 31 - 1 by omega, ?_⟩
  rw [if_pos h0]
  split <;> omega

/-- `dtb_get_memory_range` returns, and reads the blob only. -/
theorem dtbGetMemoryRange_total : ∃ r, dtbGetMemoryRange (some fdt) = some r := by
  obtain ⟨addrCells, haddr⟩ := getRootCells_total ha fun _ hlt => fdtAddressCells_total ha hc hlt
  obtain ⟨sizeCells, hsize⟩ := getRootCells_total ha fun _ hlt => fdtSizeCells_total ha hc hlt
  rw [dtbGetMemoryRange, bind_of_some (show getRootAddrCells (some fdt) = _ from haddr),
    bind_of_some (show getRootSizeCells (some fdt) = _ from hsize)]
  by_cases hcells : addrCells ≤ 0 ∨ sizeCells ≤ 0
  · exact ⟨_, if_pos hcells⟩
  obtain ⟨first, d, hfirst, memoryNode, hloop, hlt⟩ := loop_nodes_total ha hc fdt.memoryNodeBody
    (fun node => node < 2 ^ 31) fun node hlt => by
      rw [memoryNodeBody]
      by_cases h0 : 0 ≤ node
      swap
      · exact .inl ⟨_, if_neg h0, by decide⟩
      obtain ⟨is, his⟩ := isMemoryNode_total ha hc hlt
      rw [if_pos h0, bind_of_some his]
      by_cases his : is = true
      · exact .inl ⟨_, if_pos his, hlt⟩
      · obtain ⟨next, d, hnext, -⟩ := fdtNextNode_total ha hc none hlt
        rw [if_neg his, bind_of_some hnext]
        exact .inr ⟨h0, next, d, hnext, rfl⟩
  rw [if_neg hcells, bind_of_some hfirst, bind_of_some hloop]
  by_cases hnone : memoryNode < 0
  · exact ⟨_, if_pos hnone⟩
  obtain ⟨reg, regLen, hreg, hin⟩ := fdtGetprop_total ha hc "reg" hlt
  rw [if_neg hnone, bind_of_some hreg]
  cases reg with
  | none => exact ⟨_, rfl⟩
  | some reg =>
    have hle := hin reg rfl
    dsimp only
    by_cases hlen : regLen < (addrCells + sizeCells) * 4
    · exact ⟨_, if_pos hlen⟩
    obtain ⟨base, hbase⟩ := readCells_total hc (show reg + 4 * addrCells.toNat ≤ readable h by rw [readable]; omega)
    obtain ⟨size, hsize⟩ := readCells_total hc (show reg + 4 * addrCells.toNat + 4 * sizeCells.toNat ≤ readable h by
      rw [readable]; omega)
    rw [if_neg hlen, bind_of_some hbase, bind_of_some hsize]
    exact ⟨_, rfl⟩

variable (hscan : fdt.Covers (readable h + 6))

include hscan

theorem uartAtNode_total (addrCells : Int) (hlt : node < 2 ^ 31) : ∃ r, fdt.uartAtNode addrCells node = some r := by
  obtain ⟨compatible, compatLen, hcompat, hin⟩ := fdtGetprop_total ha hc "compatible" hlt
  rw [uartAtNode, bind_of_some hcompat]
  cases compatible with
  | none => exact ⟨_, rfl⟩
  | some compatible =>
    have hle := hin compatible rfl
    dsimp only
    by_cases hpos : compatLen ≤ 0
    · exact ⟨_, if_pos hpos⟩
    obtain ⟨looksLike, hlooks⟩ := scanCompatibleIn_total (fun i => fdt.load (compatible + i)) compatLen.toNat
      (fun j hj => hscan _ (by rw [readable]; omega)) compatLen.toNat 0 (Nat.sub_le ..)
    rw [if_neg hpos, bind_of_some hlooks]
    by_cases hneg : (!looksLike) = true
    · exact ⟨_, if_pos hneg⟩
    obtain ⟨reg, regLen, hreg, hin⟩ := fdtGetprop_total ha hc "reg" hlt
    rw [if_neg hneg, bind_of_some hreg]
    cases reg with
    | none => exact ⟨_, rfl⟩
    | some reg =>
      have hle := hin reg rfl
      dsimp only
      by_cases hlen : regLen < addrCells * 4
      · exact ⟨_, if_pos hlen⟩
      obtain ⟨base, hbase⟩ := readCells_total hc (show reg + 4 * addrCells.toNat ≤ readable h by rw [readable]; omega)
      rw [if_neg hlen, bind_of_some hbase]
      exact ⟨_, rfl⟩

/-- `dtb_get_uart_base` returns, and reads at most six bytes after the blob. -/
theorem dtbGetUartBase_total : ∃ r, dtbGetUartBase (some fdt) = some r := by
  obtain ⟨addrCells, haddr⟩ := getRootCells_total ha fun _ hlt => fdtAddressCells_total ha hc hlt
  rw [dtbGetUartBase, bind_of_some (show getRootAddrCells (some fdt) = _ from haddr)]
  by_cases hcells : addrCells ≤ 0
  · exact ⟨_, if_pos hcells⟩
  obtain ⟨first, d, hfirst, r, hloop, -⟩ := loop_nodes_total ha hc (fdt.uartBaseBody addrCells)
    (fun _ => True) fun node hlt => by
      rw [uartBaseBody]
      by_cases h0 : 0 ≤ node
      swap
      · exact .inl ⟨_, if_neg h0, trivial⟩
      obtain ⟨found, hfound⟩ := uartAtNode_total ha hc hscan addrCells hlt
      rw [if_pos h0, bind_of_some hfound]
      cases found with
      | some uartBase => exact .inl ⟨_, rfl, trivial⟩
      | none =>
        obtain ⟨next, d, hnext, -⟩ := fdtNextNode_total ha hc none hlt
        dsimp only
        rw [bind_of_some hnext]
        exact .inr ⟨h0, next, d, hnext, rfl⟩
  rw [if_neg hcells, bind_of_some hfirst]
  exact ⟨r, hloop⟩

end

/-- `dtb_init` sets `g_dtb` to a blob that it accepts. -/
theorem dtbInit_total (hc : fdt.Covers n) (hn : 36 ≤ n)
    (hsize : ∀ size, fdt.fdtTotalsize = some size → size.toNat ≤ n) :
    ∃ g, fdt.dtbInit = some g ∧ ∀ f ∈ g, f = fdt ∧ ∃ h, fdt.Accepted h := by
  rw [dtbInit]
  by_cases hnull : fdt.addr = 0
  · exact ⟨none, if_pos hnull, fun f hf => by cases hf⟩
  obtain ⟨r, hr⟩ := fdtCheckHeader_total hc hn hsize
  rw [if_neg hnull, bind_of_some hr]
  by_cases hok : r ≠ 0
  · exact ⟨none, if_pos hok, fun f hf => by cases hf⟩
  · refine ⟨some fdt, if_neg hok, fun f hf => ⟨(Option.mem_some_iff.mp hf).symm, accepted_of_check ?_⟩⟩
    rw [hr, not_not.mp hok]

/-- For any bytes at `dtb`, `platform_info_init` returns, and reads the `totalsize` bytes that these
say and six more at most. -/
theorem platformInfoInit_total (image : ImageSymbols) (platform : PlatformInfo) {totalsize : BitVec 32}
    (hsize : fdt.fdtTotalsize = some totalsize) (hc : fdt.Covers (max 36 totalsize.toNat + 6)) :
    ∃ r, fdt.platformInfoInit image platform = some r := by
  have hn : ∀ size, fdt.fdtTotalsize = some size → size.toNat ≤ max 36 totalsize.toNat + 6 := fun size hs => by
    rw [Option.some.inj (hs.symm.trans hsize)]
    omega
  have htotal : ∃ w, fdt.headerTotalsize = some w := by
    obtain ⟨b0, h0⟩ := exists_load hc (p := 4) (by omega)
    obtain ⟨b1, h1⟩ := exists_load hc (p := 5) (by omega)
    obtain ⟨b2, h2⟩ := exists_load hc (p := 6) (by omega)
    obtain ⟨b3, h3⟩ := exists_load hc (p := 7) (by omega)
    rw [headerTotalsize, bind_of_some h0, bind_of_some h1, bind_of_some h2, bind_of_some h3]
    exact ⟨_, rfl⟩
  obtain ⟨w, hw⟩ := htotal
  obtain ⟨g, hg, haccepted⟩ := dtbInit_total hc (by omega) hn
  rw [platformInfoInit, bind_of_some hw, bind_of_some hg]
  cases g with
  | none => exact ⟨_, rfl⟩
  | some f =>
    obtain ⟨rfl, h, ha⟩ := haccepted f rfl
    have hread : readable h = max 36 totalsize.toNat := by
      rw [readable, Option.some.inj (ha.totalsize.symm.trans hsize)]
    have hcov : f.Covers (readable h) := fun i hi => hc i (by omega)
    obtain ⟨⟨ok, uartBase⟩, huart⟩ := dtbGetUartBase_total ha hcov (hread ▸ hc)
    obtain ⟨⟨ok', ramBase, ramSize⟩, hram⟩ := dtbGetMemoryRange_total ha hcov
    rw [if_neg (by exact Bool.false_ne_true), bind_of_some huart]
    dsimp only
    by_cases hok : (!ok) = true
    · exact ⟨_, if_pos hok⟩
    rw [if_neg hok, bind_of_some hram]
    dsimp only
    by_cases hok' : (!ok') = true
    · exact ⟨_, if_pos hok'⟩
    · exact ⟨_, if_neg hok'⟩

end RvOs.FdtBlob
