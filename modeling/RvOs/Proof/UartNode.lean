import RvOs.Proof.CompatibleScan
import RvOs.Spec.UartNode

/-!
# Decoding the UART's address

The loop of `dtb_get_uart_base` takes the first node that its scan picks and
whose `reg` has the root's width (`dtbGetUartBase_eq`). Where no `compatible` is
cut short the scan picks the serial nodes (`looksSerial_eq`), and with one width
it takes the one that it is to (`OneWidth.findSome?_eq`). Cells before the last
two are shifted out (`toNat_readCells`), so the address is then right exactly
when it fits (`dtbGetUartBase_decoded_iff`). On a bus of one cell below a root of
two, or the other way, it is right at address 0 only (`dtbGetUartBase_otherWidth`).
-/

namespace RvOs

variable {fdt : Fdt}

/-! ## Lists -/

/-- A search that goes like another one up to where this ends. -/
theorem findSome?_congr_upTo {α β : Type} {f g : α → Option β} {l : List α}
    (h : ∀ a ∈ l.take (l.findIdx (fun a => (f a).isSome) + 1), g a = f a) : l.findSome? g = l.findSome? f := by
  induction l with
  | nil => rfl
  | cons a l ih =>
    rw [List.findSome?_cons, List.findSome?_cons, h a (by simp)]
    cases hf : f a with
    | some b => rfl
    | none =>
      apply ih
      intro b hb
      apply h b
      rw [List.findIdx_cons, hf, List.take_succ_cons]
      exact List.mem_cons_of_mem a hb

theorem find?_congr_upTo {α : Type} {p q : α → Bool} {l : List α}
    (h : ∀ a ∈ l.take (l.findIdx p + 1), q a = p a) : l.find? q = l.find? p := by
  rw [List.find?_eq_findSome?_guard, List.find?_eq_findSome?_guard]
  apply findSome?_congr_upTo
  intro a ha
  simp only [Option.isSome_guard] at ha
  rw [Option.guard_apply, Option.guard_apply, h a ha]

/-! ## Cells -/

/-- What a loop of `read_cells` keeps of the number. -/
theorem toNat_readCells (p : FdtProperty) (n : Nat) : (readCells p 0 n).toNat = p.number n % 2 ^ 64 := by
  induction n with
  | zero => rfl
  | succ n ih =>
    have hlt := (p.cell n).isLt
    have hw : ((p.cell n).setWidth 64).toNat = (p.cell n).toNat := by
      rw [BitVec.toNat_setWidth]
      omega
    have hshift : (readCells p 0 n <<< 32).toNat = 2 ^ 32 * ((readCells p 0 n).toNat % 2 ^ 32) := by
      rw [BitVec.toNat_shiftLeft, Nat.shiftLeft_eq]
      omega
    rw [readCells, Nat.zero_add, BitVec.toNat_or, hshift, hw, ← Nat.two_pow_add_eq_or_of_lt hlt, ih,
      FdtProperty.number]
    omega

theorem toNat_readCells_iff (p : FdtProperty) (n : Nat) :
    (readCells p 0 n).toNat = p.number n ↔ p.number n < 2 ^ 64 := by
  rw [toNat_readCells, Nat.mod_eq_iff_lt (Nat.two_pow_pos 64).ne']

/-- One cell and two cells are the same number only if both cells are 0. -/
theorem number_one_eq_two (p : FdtProperty) : p.number 1 = p.number 2 ↔ p.cell 0 = 0 ∧ p.cell 1 = 0 := by
  simp only [FdtProperty.number, ← BitVec.toNat_inj, show (0 : BitVec 32).toNat = 0 from rfl]
  omega

/-- A count as libfdt reads it. -/
theorem fdtCells_count (fdt : Fdt) (name : String) (default : Nat) :
    fdtCells fdt.root.properties name = -FDT_ERR_NOTFOUND ∧ fdt.cellCount name default = default ∨
      fdtCells fdt.root.properties name = -FDT_ERR_BADNCELLS ∧ fdt.cellCount name default = 0 ∨
      fdtCells fdt.root.properties name = fdt.cellCount name default := by
  rw [fdtCells, Fdt.cellCount]
  cases fdtGetprop fdt.root.properties name with
  | none => exact .inl ⟨rfl, rfl⟩
  | some c =>
    right
    by_cases hlen : c.value.length = 4
    · by_cases hmax : (c.cell 0).toNat ≤ 4
      · right
        simp [hlen, hmax, FDT_MAX_NCELLS, Nat.not_lt.mpr hmax]
      · left
        simp [hlen, hmax, FDT_MAX_NCELLS, Nat.lt_of_not_le hmax]
    · left
      simp [hlen]

theorem count_ne_notfound (n : Nat) : (n : Int) ≠ -FDT_ERR_NOTFOUND := by
  unfold FDT_ERR_NOTFOUND
  omega

/-- A cell count of the root, by what libfdt makes of an absent one and of 0. -/
theorem getRootCells_count {cells : List FdtProperty → Int} {name : String} {default : Nat} (hdefault : 0 < default)
    (hnone : fdtCells fdt.root.properties name = -FDT_ERR_NOTFOUND → cells fdt.root.properties = default)
    (hzero : fdtCells fdt.root.properties name = 0 → cells fdt.root.properties ≤ 0)
    (hcount : fdtCells fdt.root.properties name ≠ -FDT_ERR_NOTFOUND → fdtCells fdt.root.properties name ≠ 0 →
      cells fdt.root.properties = fdtCells fdt.root.properties name) :
    getRootCells cells (some fdt) =
      if 0 < fdt.cellCount name default then (fdt.cellCount name default : Int) else -1 := by
  rw [getRootCells]
  rcases fdtCells_count fdt name default with ⟨hc, hn⟩ | ⟨hc, hn⟩ | hc
  · rw [hnone hc, hn, if_pos hdefault, if_pos (by omega)]
  · rw [hcount (by rw [hc]; decide) (by rw [hc]; decide), hc, hn]
    rfl
  · by_cases hpos : 0 < fdt.cellCount name default
    · rw [hcount (hc ▸ count_ne_notfound _) (by omega), hc, if_pos hpos, if_pos (by omega)]
    · have hle := hzero (by omega)
      rw [if_neg hpos, if_neg (by omega)]

theorem getRootAddrCells_eq (fdt : Fdt) : getRootAddrCells (some fdt) =
    if 0 < fdt.addressCells then (fdt.addressCells : Int) else -1 := by
  apply getRootCells_count
  · decide
  · intro h
    rw [fdtAddressCells, h]
    rfl
  · intro h
    rw [fdtAddressCells, h]
    decide
  · intro hn h0
    simp only [fdtAddressCells, if_neg h0, if_neg hn]

/-! ## The loop -/

/-- The code's scan of `compatible`, which may go past its end. -/
def FdtEntry.looksSerial (node : FdtEntry) : Bool :=
  match fdtGetprop node.properties "compatible" with
  | none => false
  | some compatible => looksLikeUart compatible.byte compatible.value.length

theorem looksLikeUart_zero (s : Nat → Byte) : looksLikeUart s 0 = false := rfl

/-- One node of the loop. -/
theorem uartBaseLoop_cons (r : Nat) (node : FdtEntry) (nodes : List FdtEntry) :
    uartBaseLoop r (node :: nodes) =
      match node.serialAddress FdtEntry.looksSerial (fun _ => some r) with
      | some (n, reg) => (true, readCells reg 0 n)
      | none => uartBaseLoop r nodes := by
  rw [uartBaseLoop, FdtEntry.serialAddress, FdtEntry.looksSerial, FdtEntry.address]
  cases fdtGetprop node.properties "compatible" with
  | none => rfl
  | some compatible =>
    by_cases h0 : compatible.value.length = 0
    · simp [h0, looksLikeUart_zero]
    cases hl : looksLikeUart compatible.byte compatible.value.length with
    | false => simp [h0, hl]
    | true =>
      cases fdtGetprop node.properties "reg" with
      | none => simp [h0, hl]
      | some reg =>
        by_cases hlen : 4 * r ≤ reg.value.length
        · simp [h0, hl, hlen, show ¬ (reg.value.length : Int) < r * 4 by omega]
        · simp [h0, hl, hlen, show (reg.value.length : Int) < r * 4 by omega]

theorem uartBaseLoop_eq (r : Nat) (nodes : List FdtEntry) : uartBaseLoop r nodes =
    match nodes.findSome? (FdtEntry.serialAddress FdtEntry.looksSerial fun _ => some r) with
    | some (n, reg) => (true, readCells reg 0 n)
    | none => (false, 0) := by
  induction nodes with
  | nil => rfl
  | cons node nodes ih =>
    rw [uartBaseLoop_cons, ih, List.findSome?_cons]
    cases node.serialAddress FdtEntry.looksSerial fun _ => some r <;> rfl

theorem findSome?_serialAddress_none (serial : FdtEntry → Bool) (nodes : List FdtEntry) :
    nodes.findSome? (FdtEntry.serialAddress serial fun _ => none) = none := by
  rw [List.findSome?_eq_none_iff]
  intro node _
  rw [FdtEntry.serialAddress, FdtEntry.address]
  split <;> rfl

/-- What `dtb_get_uart_base` returns, by the width of the root. -/
theorem dtbGetUartBase_eq (fdt : Fdt) : dtbGetUartBase (some fdt) =
    match fdt.entries.findSome? (FdtEntry.serialAddress FdtEntry.looksSerial (rootCells fdt)) with
    | some (n, reg) => (true, readCells reg 0 n)
    | none => (false, 0) := by
  have hw : rootCells fdt = fun _ => if 0 < fdt.addressCells then some fdt.addressCells else none := rfl
  rw [dtbGetUartBase, getRootAddrCells_eq, hw]
  by_cases hpos : 0 < fdt.addressCells
  · rw [if_pos hpos, if_pos hpos, ← uartBaseLoop_eq]
    exact if_neg (by omega)
  · rw [if_neg hpos, if_neg hpos, findSome?_serialAddress_none]
    rfl

/-! ## One width -/

/-- Where nothing is cut short the scan finds the strings. -/
theorem looksSerial_eq {node : FdtEntry}
    (h : ∀ compatible ∈ fdtGetprop node.properties "compatible", ¬ CutShort compatible.strings) :
    node.looksSerial = node.isSerial := by
  rw [FdtEntry.looksSerial, FdtEntry.isSerial]
  cases hc : fdtGetprop node.properties "compatible" with
  | none => rfl
  | some compatible => exact (looksLikeUart_eq (h compatible hc)).2

theorem address_congr {node : FdtEntry} {width width' : FdtEntry → Option Nat} (h : width node = width' node) :
    node.address width = node.address width' := by
  rw [FdtEntry.address, FdtEntry.address, h]

/-- With one width the code finds the cells that it is to. -/
theorem OneWidth.findSome?_eq (h : OneWidth fdt) :
    fdt.entries.findSome? (FdtEntry.serialAddress FdtEntry.looksSerial (rootCells fdt)) =
      fdt.entries.findSome? (FdtEntry.serialAddress FdtEntry.isSerial ownCells) := by
  apply findSome?_congr_upTo
  intro node hn
  obtain ⟨hcut, hwidth⟩ := h node hn
  rw [FdtEntry.serialAddress, FdtEntry.serialAddress, looksSerial_eq hcut]
  cases hs : node.isSerial with
  | false => rfl
  | true =>
    rcases hwidth hs with hw | ⟨hown, hroot⟩
    · exact (address_congr hw).symm
    · rw [hown, hroot]

/-- The code decodes the address as the node's parent says, where it comes by one
width only, if and only if the address fits 64 bits. -/
theorem dtbGetUartBase_decoded_iff (fdt : Fdt) (h : OneWidth fdt) :
    UartDecoded fdt ↔ ∀ address ∈ uartAddress fdt, address < 2 ^ 64 := by
  rw [UartDecoded, uartAddress, dtbGetUartBase_eq, h.findSome?_eq]
  cases fdt.entries.findSome? (FdtEntry.serialAddress FdtEntry.isSerial ownCells) with
  | none => simp
  | some own => simpa using toNat_readCells_iff own.2 own.1

/-- A UART at 0x10000000 on a bus of two address cells, after one whose `reg` has one cell. -/
def wideBus : Fdt where
  addr := 0x84000000
  totalsize := 0x00020000
  headerOk := true
  root := .node [cellsProperty "#size-cells" [2]]
    [.node [stringProperty "compatible" "simple-bus", cellsProperty "#address-cells" [2],
      cellsProperty "#size-cells" [2]]
      [.node [stringProperty "compatible" "uart-mux", cellsProperty "reg" [3]] [],
       .node [stringProperty "compatible" "ns16550a", cellsProperty "reg" [0, 0x10000000, 0, 0x100]] []]]

theorem wideBus_decoded : uartAddress wideBus = some 0x10000000 ∧ UartDecoded wideBus :=
  ⟨by decide, (dtbGetUartBase_decoded_iff wideBus (by decide)).mpr (by decide)⟩

/-! ## Two widths -/

/-- The first serial node, on a bus with one cell below a root with two or the
other way, is decoded as its parent says at address 0 only. -/
theorem dtbGetUartBase_otherWidth {before after : List FdtEntry} {node : FdtEntry} {reg : FdtProperty} {p r : Nat}
    (he : fdt.entries = before ++ node :: after)
    (hcut : ∀ n ∈ node :: before, ∀ c ∈ fdtGetprop n.properties "compatible", ¬ CutShort c.strings)
    (hbefore : ∀ n ∈ before, n.isSerial = false) (hserial : node.isSerial = true)
    (hown : ownCells node = some p) (hroot : fdt.addressCells = r) (hpr : p = 1 ∧ r = 2 ∨ p = 2 ∧ r = 1)
    (hreg : fdtGetprop node.properties "reg" = some reg) (hlen : 8 ≤ reg.value.length) :
    UartDecoded fdt ↔ reg.cell 0 = 0 ∧ reg.cell 1 = 0 := by
  have hp : node.serialAddress FdtEntry.isSerial ownCells = some (p, reg) := by
    rw [FdtEntry.serialAddress, if_pos hserial, FdtEntry.address, hown, hreg]
    exact if_pos (by omega)
  have hr : node.serialAddress FdtEntry.looksSerial (rootCells fdt) = some (r, reg) := by
    rw [FdtEntry.serialAddress, looksSerial_eq (hcut node List.mem_cons_self), if_pos hserial, FdtEntry.address,
      rootCells, hroot, if_pos (by omega), hreg]
    exact if_pos (by omega)
  have hskip : before.findSome? (FdtEntry.serialAddress FdtEntry.isSerial ownCells) = none := by
    rw [List.findSome?_eq_none_iff]
    intro n hn
    rw [FdtEntry.serialAddress, hbefore n hn]
    rfl
  have hskip' : before.findSome? (FdtEntry.serialAddress FdtEntry.looksSerial (rootCells fdt)) = none := by
    rw [List.findSome?_eq_none_iff]
    intro n hn
    rw [FdtEntry.serialAddress, looksSerial_eq (hcut n (List.mem_cons_of_mem node hn)), hbefore n hn]
    rfl
  have hlt := (reg.cell 0).isLt
  have hlt' := (reg.cell 1).isLt
  rw [UartDecoded, uartAddress, dtbGetUartBase_eq, he, List.findSome?_append, List.findSome?_append, hskip, hskip',
    List.findSome?_cons, List.findSome?_cons, hp, hr, ← number_one_eq_two]
  rcases hpr with ⟨rfl, rfl⟩ | ⟨rfl, rfl⟩ <;> simp [toNat_readCells, FdtProperty.number] <;> omega

/-- A bus of one address cell below a root of two, with a UART at 0x10000000. -/
def narrowBus : Fdt where
  addr := 0x84000000
  totalsize := 0x00020000
  headerOk := true
  root := .node [cellsProperty "#address-cells" [2], cellsProperty "#size-cells" [2]]
    [.node [cellsProperty "#address-cells" [1], cellsProperty "#size-cells" [1]]
      [.node [stringProperty "compatible" "ns16550a", cellsProperty "reg" [0x10000000, 0x100]] []]]

/-- The code takes the size for the low half of the address. -/
theorem narrowBus_not_decoded : uartAddress narrowBus = some 0x10000000 ∧
    dtbGetUartBase (some narrowBus) = (true, 0x1000000000000100) ∧ ¬ UartDecoded narrowBus := by
  have ha : uartAddress narrowBus = some 0x10000000 := by decide
  have hc : dtbGetUartBase (some narrowBus) = (true, 0x1000000000000100) := by decide
  refine ⟨ha, hc, fun h => ?_⟩
  rw [UartDecoded, ha, hc] at h
  exact absurd h.2 (by decide)

end RvOs
