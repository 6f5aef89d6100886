import RvOs.Proof.UartNode
import RvOs.Spec.MemoryNode

/-!
# Decoding the memory range

`dtb_get_memory_range` reads both numbers of one `reg` (`dtbGetMemoryRange_eq`),
the second as the first of the cells that follow (`readCells_skip`). It takes the
first node whose `device_type` starts with "memory", which is the memory node
where there is no near miss (`NoNearMiss.memoryReg_eq`), and shifts high cells
out, so its range is then right exactly when the numbers fit
(`dtbGetMemoryRange_decoded_iff`).
-/

namespace RvOs

variable {fdt : Fdt} {node : FdtEntry}

/-! ## Cells -/

theorem byte_skip (p : FdtProperty) (n i : Nat) : (p.skip n).byte i = p.byte (4 * n + i) := by
  have hlen : (p.skip n).value.length = p.value.length - 4 * n := List.length_drop
  by_cases h : i < p.value.length - 4 * n
  · have hlt : 4 * n + i < p.value.length := by omega
    rw [FdtProperty.byte, dif_pos (by omega), FdtProperty.byte, dif_pos hlt]
    exact List.getElem_drop ..
  · rw [FdtProperty.byte, dif_neg (by omega), hlen]
    show p.byte _ = _
    congr 1
    omega

theorem cell_skip (p : FdtProperty) (n i : Nat) : (p.skip n).cell i = p.cell (n + i) := by
  have e (j : Nat) : 4 * n + (4 * i + j) = 4 * (n + i) + j := by omega
  rw [FdtProperty.cell, FdtProperty.cell, byte_skip, byte_skip, byte_skip, byte_skip, e 1, e 2, e 3, Nat.mul_add]

/-- Cells from `start` on are the first ones of what is left. -/
theorem readCells_skip (p : FdtProperty) (start n : Nat) : readCells p start n = readCells (p.skip start) 0 n := by
  induction n with
  | zero => rfl
  | succ n ih => rw [readCells, readCells, ih, cell_skip, Nat.zero_add]

/-! ## Cell counts -/

theorem getRootSizeCells_eq (fdt : Fdt) : getRootSizeCells (some fdt) =
    if 0 < fdt.sizeCells then (fdt.sizeCells : Int) else -1 := by
  apply getRootCells_count
  · decide
  · intro h
    rw [fdtSizeCells, h]
    rfl
  · intro h
    rw [fdtSizeCells, h]
    decide
  · intro hn _
    exact if_neg hn

/-! ## The range -/

/-- The code's test of `device_type`. -/
def FdtEntry.looksMemory (node : FdtEntry) : Bool :=
  match fdtGetprop node.properties "device_type" with
  | none => false
  | some deviceType => decide (6 ≤ deviceType.value.length) && matchesAt deviceType.byte 0 (literal "memory")

theorem memoryNode_eq (nodes : List FdtEntry) : memoryNode nodes = nodes.find? FdtEntry.looksMemory := rfl

/-- In a value that is long enough, bytes compared one by one are compared as a prefix. -/
theorem matchesAt_isPrefixOf {p : FdtProperty} {text : List Byte} (h : text.length ≤ p.value.length) :
    matchesAt p.byte 0 text = text.isPrefixOf p.value := by
  have hpart : ¬ IsPart p.value text := fun ⟨hpre, hne⟩ => hne (hpre.eq_of_length_le h)
  exact matchesAt_of_in byte_of_getElem? text ((matchesIn_eq text 0).trans (if_neg hpart))

theorem looksMemory_eq (node : FdtEntry) : node.looksMemory = node.startsMemory := by
  rw [FdtEntry.looksMemory, FdtEntry.startsMemory]
  cases fdtGetprop node.properties "device_type" with
  | none => rfl
  | some deviceType =>
    dsimp only
    by_cases hlen : 6 ≤ deviceType.value.length
    · rw [decide_eq_true hlen, Bool.true_and]
      exact matchesAt_isPrefixOf hlen
    · have hshort : (literal "memory").isPrefixOf deviceType.value = false :=
        Bool.eq_false_iff.mpr fun h => hlen (List.isPrefixOf_iff_prefix.mp h).length_le
      rw [decide_eq_false hlen, hshort]
      rfl

/-- What `dtb_get_memory_range` returns. -/
theorem dtbGetMemoryRange_eq (fdt : Fdt) : dtbGetMemoryRange (some fdt) =
    match fdt.memoryReg FdtEntry.startsMemory with
    | some reg => (true, readCells reg 0 fdt.addressCells, readCells (reg.skip fdt.addressCells) 0 fdt.sizeCells)
    | none => (false, 0, 0) := by
  have hnode : memoryNode fdt.entries = fdt.entries.find? FdtEntry.startsMemory := by
    rw [memoryNode_eq, funext looksMemory_eq]
  simp only [dtbGetMemoryRange, Fdt.memoryReg, getRootAddrCells_eq, getRootSizeCells_eq, hnode]
  generalize fdt.addressCells = a
  generalize fdt.sizeCells = n
  by_cases hpos : 0 < a ∧ 0 < n
  swap
  · rw [if_neg hpos, if_pos]
    split_ifs <;> omega
  obtain ⟨ha, hn⟩ := hpos
  rw [if_pos ha, if_pos hn, if_neg (by omega), if_pos ⟨ha, hn⟩]
  cases fdt.entries.find? FdtEntry.startsMemory with
  | none => rfl
  | some node =>
    simp only [Option.bind_some]
    cases fdtGetprop node.properties "reg" with
    | none => rfl
    | some reg =>
      rw [Option.filter_some]
      by_cases hlen : (a + n) * 4 ≤ reg.value.length
      · have hlt : ¬ (reg.value.length : Int) < (a + n) * 4 := by omega
        simp [hlen, hlt, readCells_skip reg a]
      · have hlt : (reg.value.length : Int) < (a + n) * 4 := by omega
        simp [hlen, hlt]

/-! ## No near miss -/

theorem startsMemory_of_isMemory (h : node.isMemory = true) : node.startsMemory = true := by
  rw [FdtEntry.isMemory] at h
  rw [FdtEntry.startsMemory]
  split at h
  · cases h
  · rename_i deviceType _
    rw [beq_iff_eq.mp h]
    decide

/-- Without a near miss the code finds the memory node. -/
theorem NoNearMiss.memoryReg_eq (h : NoNearMiss fdt) :
    fdt.memoryReg FdtEntry.startsMemory = fdt.memoryReg FdtEntry.isMemory := by
  rw [Fdt.memoryReg, Fdt.memoryReg]
  by_cases hpos : 0 < fdt.addressCells ∧ 0 < fdt.sizeCells
  swap
  · rw [if_neg hpos, if_neg hpos]
  rw [find?_congr_upTo (p := FdtEntry.isMemory) fun n hn =>
    Bool.eq_iff_iff.mpr ⟨h hpos.1 hpos.2 n hn, startsMemory_of_isMemory⟩]

/-- The code returns the memory node's range, where no near miss comes before
it, if and only if its numbers fit 64 bits. -/
theorem dtbGetMemoryRange_decoded_iff (fdt : Fdt) (h : NoNearMiss fdt) : MemoryDecoded fdt ↔ RangeFits fdt := by
  rw [MemoryDecoded, RangeFits, memoryRange, dtbGetMemoryRange_eq, h.memoryReg_eq]
  cases fdt.memoryReg FdtEntry.isMemory with
  | none => simp
  | some reg =>
    have hbase := toNat_readCells_iff reg fdt.addressCells
    have hsize := toNat_readCells_iff (reg.skip fdt.addressCells) fdt.sizeCells
    rw [Option.map_some, Option.filter_some]
    by_cases hfits : (fdt.range reg).1 < 2 ^ 64 ∧ (fdt.range reg).2 < 2 ^ 64
    · rw [if_pos (decide_eq_true hfits)]
      exact ⟨fun _ _ hr => Option.some.inj hr ▸ hfits, fun _ => ⟨_, _, rfl, hbase.mpr hfits.1, hsize.mpr hfits.2⟩⟩
    · rw [if_neg (by simpa using hfits)]
      exact ⟨fun hfalse => Bool.noConfusion (congrArg Prod.fst hfalse), fun hfit => absurd (hfit reg rfl) hfits⟩

/-- A memory node after a CPU and before a node whose `device_type` only starts with "memory". -/
def laterMiss : Fdt where
  addr := 0x84000000
  totalsize := 0x00020000
  headerOk := true
  root := .node [cellsProperty "#address-cells" [2], cellsProperty "#size-cells" [2]]
    [.node [] [.node [stringProperty "device_type" "cpu", cellsProperty "reg" [0]] []],
     .node [stringProperty "device_type" "memory", cellsProperty "reg" [0, 0x80000000, 0, 0x8000000]] [],
     .node [stringProperty "device_type" "memory-controller", cellsProperty "reg" [0, 0x20000000, 0, 0x1000]] []]

theorem laterMiss_decoded : memoryRange laterMiss = some (0x80000000, 0x8000000) ∧ MemoryDecoded laterMiss :=
  ⟨by decide, (dtbGetMemoryRange_decoded_iff laterMiss (by decide)).mpr (by decide)⟩

/-! ## A near miss -/

/-- After a near miss with an entry the range is right only if the memory node
has the numbers that the code makes of this entry. -/
theorem dtbGetMemoryRange_nearMiss {before after : List FdtEntry} {reg : FdtProperty}
    (he : fdt.entries = before ++ node :: after) (hbefore : ∀ n ∈ before, n.startsMemory = false)
    (hstarts : node.startsMemory = true) (hcells : 0 < fdt.addressCells ∧ 0 < fdt.sizeCells)
    (hreg : fdtGetprop node.properties "reg" = some reg)
    (hlen : (fdt.addressCells + fdt.sizeCells) * 4 ≤ reg.value.length) :
    MemoryDecoded fdt ↔ memoryRange fdt = some ((fdt.range reg).1 % 2 ^ 64, (fdt.range reg).2 % 2 ^ 64) := by
  have hfind : fdt.entries.find? FdtEntry.startsMemory = some node :=
    List.find?_eq_some_iff_append.mpr ⟨hstarts, before, after, he, fun n hn => by simp [hbefore n hn]⟩
  have hfound : fdt.memoryReg FdtEntry.startsMemory = some reg := by
    rw [Fdt.memoryReg, if_pos hcells, hfind, Option.bind_some, hreg, Option.filter_some, if_pos (decide_eq_true hlen)]
  rw [MemoryDecoded, dtbGetMemoryRange_eq, hfound]
  cases memoryRange fdt with
  | none => simp
  | some r => simp [Fdt.range, toNat_readCells, Prod.ext_iff, eq_comm]

/-- A node whose `device_type` only starts with "memory", before the memory node. -/
def nearMiss : Fdt where
  addr := 0x84000000
  totalsize := 0x00020000
  headerOk := true
  root := .node [cellsProperty "#address-cells" [2], cellsProperty "#size-cells" [2]]
    [.node [stringProperty "device_type" "memory-controller", cellsProperty "reg" [0, 0x20000000, 0, 0x1000]] [],
     .node [stringProperty "device_type" "memory", cellsProperty "reg" [0, 0x80000000, 0, 0x8000000]] []]

/-- The code takes its registers for RAM. -/
theorem nearMiss_not_decoded : memoryRange nearMiss = some (0x80000000, 0x8000000) ∧
    dtbGetMemoryRange (some nearMiss) = (true, 0x20000000, 0x1000) ∧ ¬ MemoryDecoded nearMiss := by
  have hr : memoryRange nearMiss = some (0x80000000, 0x8000000) := by decide
  have hc : dtbGetMemoryRange (some nearMiss) = (true, 0x20000000, 0x1000) := by decide
  refine ⟨hr, hc, fun h => ?_⟩
  rw [MemoryDecoded, hr, hc] at h
  obtain ⟨b, s, he, hb, -⟩ := h
  cases he
  exact absurd hb (by decide)

end RvOs
