import RvOs.Spec.Libfdt

/-!
# libfdt stays in the blob
-/

namespace RvOs.FdtBlob

variable {fdt : FdtBlob} {h : FdtHeader} {n p : Nat} {w : BitVec 32}

/-! ## Loads -/

theorem exists_load (hc : fdt.Covers n) (hp : p < n) : ∃ b, fdt.load p = some b :=
  Option.isSome_iff_exists.mp (hc p hp)

theorem exists_fdt32 (hc : fdt.Covers n) (hp : p + 4 ≤ n) : ∃ w, fdt.fdt32ToCpu p = some w := by
  obtain ⟨b0, h0⟩ := exists_load hc (p := p) (by omega)
  obtain ⟨b1, h1⟩ := exists_load hc (p := p + 1) (by omega)
  obtain ⟨b2, h2⟩ := exists_load hc (p := p + 2) (by omega)
  obtain ⟨b3, h3⟩ := exists_load hc (p := p + 3) (by omega)
  refine ⟨b0 ++ b1 ++ b2 ++ b3, ?_⟩
  rw [fdt32ToCpu, h0, h1, h2, h3]
  rfl

/-- `memchr` on bytes that can be loaded. -/
theorem memchrLoop_total {load : Nat → Option Byte} (c : BitVec 32) (n i : Nat) (hl : ∀ j < i + n, (load j).isSome) :
    ∃ r, memchrLoop load c n i = some r ∧ ∀ j ∈ r, j < i + n := by
  induction n generalizing i with
  | zero => exact ⟨none, rfl, fun j hj => by cases hj⟩
  | succ n ih =>
    obtain ⟨b, hb⟩ := Option.isSome_iff_exists.mp (hl i (by omega))
    rw [memchrLoop, bind_of_some hb]
    by_cases hbc : b = c.setWidth 8
    · refine ⟨_, if_pos hbc, fun j hj => ?_⟩
      rw [← Option.mem_some_iff.mp hj]
      omega
    · obtain ⟨r, hr, hlt⟩ := ih (i + 1) fun j hj => hl j (by omega)
      exact ⟨r, (if_neg hbc).trans hr, fun j hj => by have := hlt j hj; omega⟩

theorem memchr_total {p : Nat → Option Byte} (c : BitVec 32) {n : Nat} (hl : ∀ j < n, (p j).isSome) :
    ∃ r, memchr p c n = some r ∧ ∀ j ∈ r, j < n := by
  obtain ⟨r, hr, hlt⟩ := memchrLoop_total c n 0 fun j hj => hl j (by omega)
  exact ⟨r, hr, fun j hj => by have := hlt j hj; omega⟩

theorem memcmpLoop_total {x y : Nat → Option Byte} (n i : Nat) (hx : ∀ j < i + n, (x j).isSome)
    (hy : ∀ j < i + n, (y j).isSome) : ∃ r, memcmpLoop x y n i = some r := by
  induction n generalizing i with
  | zero => exact ⟨0, rfl⟩
  | succ n ih =>
    obtain ⟨a, ha⟩ := Option.isSome_iff_exists.mp (hx i (by omega))
    obtain ⟨b, hb⟩ := Option.isSome_iff_exists.mp (hy i (by omega))
    rw [memcmpLoop, bind_of_some ha, bind_of_some hb]
    by_cases hab : a ≠ b
    · exact ⟨_, if_pos hab⟩
    · obtain ⟨r, hr⟩ := ih (i + 1) (fun j hj => hx j (by omega)) fun j hj => hy j (by omega)
      exact ⟨r, (if_neg hab).trans hr⟩

theorem memcmp_total {x y : Nat → Option Byte} {n : Nat} (hx : ∀ j < n, (x j).isSome) (hy : ∀ j < n, (y j).isSome) :
    ∃ r, memcmp x y n = some r :=
  memcmpLoop_total n 0 (fun j hj => hx j (by omega)) fun j hj => hy j (by omega)

/-! ## The header -/

theorem checkOff_iff {hdrsize totalsize off : BitVec 32} :
    checkOff hdrsize totalsize off = true ↔ hdrsize.toNat ≤ off.toNat ∧ off.toNat ≤ totalsize.toNat := by
  rw [checkOff, Bool.and_eq_true, decide_eq_true_iff, decide_eq_true_iff]
  rfl

theorem checkBlock_iff {hdrsize totalsize base size : BitVec 32} :
    checkBlock hdrsize totalsize base size = true ↔
      hdrsize.toNat ≤ base.toNat ∧ base.toNat + size.toNat ≤ totalsize.toNat := by
  have hbase := base.isLt
  have hsize := size.isLt
  have htotal := totalsize.isLt
  by_cases hb : checkOff hdrsize totalsize base = true
  swap
  · rw [checkBlock, Bool.eq_false_iff.mpr hb]
    rw [checkOff_iff] at hb
    simp only [Bool.not_false, ite_true, Bool.false_eq_true, false_iff]
    omega
  rw [checkBlock, hb, Bool.not_true, if_neg Bool.false_ne_true]
  rw [checkOff_iff] at hb
  by_cases hwrap : base + size < base
  · rw [if_pos hwrap]
    rw [BitVec.lt_def, BitVec.toNat_add] at hwrap
    simp only [Bool.false_eq_true, false_iff]
    omega
  rw [if_neg hwrap]
  rw [BitVec.lt_def, BitVec.toNat_add] at hwrap
  have hsum : (base + size).toNat = base.toNat + size.toNat := by
    rw [BitVec.toNat_add]
    omega
  have hite (c : Bool) : (if (!c) = true then false else true) = c := by cases c <;> rfl
  rw [hite, checkOff_iff, hsum]
  omega

theorem fdtHeaderSize_ge (hv : 2 ≤ w.toNat) : 32 ≤ fdtHeaderSize w ∧ fdtHeaderSize w ≤ 40 ∧
    (17 ≤ w.toNat → fdtHeaderSize w = 40) := by
  rw [fdtHeaderSize]
  simp only [BitVec.le_def, BitVec.reduceToNat, FDT_V1_SIZE, FDT_V2_SIZE, FDT_V3_SIZE, FDT_V16_SIZE, FDT_V17_SIZE]
  grind

/-- A check that is passed. -/
theorem passed {c : Prop} [Decidable c] {e : Int} {x : Option Int} (he : e ≠ 0)
    (h : (if c then pure e else x) = some 0) : ¬ c ∧ x = some 0 := by
  by_cases hc : c
  · rw [if_pos hc] at h
    exact absurd (Option.some.inj h) he
  · rw [if_neg hc] at h
    exact ⟨hc, h⟩

theorem checkStruct_ok {hdrsize : BitVec 32} (hstruct : fdt.fdtOffDtStruct = some h.offDtStruct)
    (hok : fdt.checkStruct hdrsize h.totalsize h.version = some true) : ∃ size,
    (17 ≤ h.version.toNat → fdt.fdtSizeDtStruct = some size) ∧ hdrsize.toNat ≤ h.offDtStruct.toNat ∧
      h.offDtStruct.toNat + { h with sizeDtStruct := size }.structSize ≤ h.totalsize.toNat := by
  rw [checkStruct] at hok
  by_cases hv : h.version < 17
  · rw [if_pos hv, bind_of_some hstruct] at hok
    have hlt : h.version.toNat < 17 := hv
    obtain ⟨hge, hle⟩ := checkOff_iff.mp (Option.some.inj hok)
    refine ⟨0, fun hge => absurd hge (by omega), hge, ?_⟩
    rw [FdtHeader.structSize, if_neg (show ¬ 17 ≤ h.version.toNat by omega)]
    show h.offDtStruct.toNat + (h.totalsize.toNat - h.offDtStruct.toNat) ≤ _
    omega
  · rw [if_neg hv, bind_of_some hstruct] at hok
    have hge : 17 ≤ h.version.toNat := Nat.le_of_not_lt hv
    obtain ⟨size, hsize, hok⟩ := Option.bind_eq_some_iff.mp hok
    obtain ⟨hle, hend⟩ := checkBlock_iff.mp (Option.some.inj hok)
    refine ⟨size, fun _ => hsize, hle, ?_⟩
    rw [FdtHeader.structSize, if_pos (show 17 ≤ h.version.toNat from hge)]
    exact hend

/-- What `fdt_check_header` accepts has a header. -/
theorem accepted_of_check (hok : fdt.fdtCheckHeader = some 0) : ∃ h, fdt.Accepted h := by
  rw [fdtCheckHeader] at hok
  obtain ⟨haligned, hok⟩ := passed (by decide) hok
  obtain ⟨magic, hmagic, hok⟩ := Option.bind_eq_some_iff.mp hok
  obtain ⟨hmagic', hok⟩ := passed (by decide) hok
  obtain ⟨version, hversion, hok⟩ := Option.bind_eq_some_iff.mp hok
  obtain ⟨hfirst, hok⟩ := passed (by decide) hok
  obtain ⟨last, hlast, hok⟩ := Option.bind_eq_some_iff.mp hok
  obtain ⟨hlast', hok⟩ := passed (by decide) hok
  obtain ⟨_, -, hok⟩ := Option.bind_eq_some_iff.mp hok
  obtain ⟨-, hok⟩ := passed (by decide) hok
  obtain ⟨totalsize, htotal, hok⟩ := Option.bind_eq_some_iff.mp hok
  obtain ⟨hsize, hok⟩ := passed (by decide) hok
  obtain ⟨hmax, hok⟩ := passed (by decide) hok
  obtain ⟨_, -, hok⟩ := Option.bind_eq_some_iff.mp hok
  obtain ⟨-, hok⟩ := passed (by decide) hok
  obtain ⟨offDtStruct, hstruct, hok⟩ := Option.bind_eq_some_iff.mp hok
  obtain ⟨hstructAligned, hok⟩ := passed (by decide) hok
  obtain ⟨_, -, hok⟩ := Option.bind_eq_some_iff.mp hok
  obtain ⟨-, hok⟩ := passed (by decide) hok
  obtain ⟨structOk, hstructOk, hok⟩ := Option.bind_eq_some_iff.mp hok
  obtain ⟨hstructOk', hok⟩ := passed (by decide) hok
  obtain ⟨offDtStrings, hstrings, hok⟩ := Option.bind_eq_some_iff.mp hok
  obtain ⟨sizeDtStrings, hsizeStrings, hok⟩ := Option.bind_eq_some_iff.mp hok
  obtain ⟨hstringsOk, -⟩ := passed (by decide) hok
  have hversion_ge : 2 ≤ version.toNat := Nat.le_of_not_lt hfirst
  have htotal_lt : totalsize.toNat ≤ 2 ^ 31 - 1 := Nat.le_of_not_lt hmax
  obtain ⟨hhdr, hhdr', -⟩ := fdtHeaderSize_ge hversion_ge
  let h : FdtHeader := ⟨totalsize, offDtStruct, offDtStrings, version, sizeDtStrings, 0⟩
  have hstructOk' : fdt.checkStruct (BitVec.ofNat 32 (fdtHeaderSize version)) h.totalsize h.version = some true := by
    rw [← show structOk = true by simpa using hstructOk']
    exact hstructOk
  obtain ⟨size, hsizeStruct, hge, hle⟩ := checkStruct_ok (h := h) hstruct hstructOk'
  have hstringsOk' := checkBlock_iff.mp (by simpa using hstringsOk)
  rw [BitVec.toNat_ofNat] at hge
  refine ⟨{ h with sizeDtStruct := size }, by simpa using haligned, by simpa [hmagic] using hmagic', htotal,
    hstruct, hstrings, hversion, ⟨last, Nat.le_of_not_lt hlast', hlast⟩, hsizeStrings, hsizeStruct, hversion_ge,
    Nat.lt_succ_of_le htotal_lt, ?_, by simpa [FDT_TAGSIZE] using hstructAligned, hle, hstringsOk'.2⟩
  show 32 ≤ offDtStruct.toNat
  change _ ≤ offDtStruct.toNat at hge
  omega

/-- A check that is made returns. -/
theorem checked {c : Prop} [Decidable c] {e : Int} {x : Option Int} (hx : ¬ c → ∃ r, x = some r) :
    ∃ r, (if c then pure e else x) = some r := by
  by_cases hc : c
  · exact ⟨e, if_pos hc⟩
  · obtain ⟨r, hr⟩ := hx hc
    exact ⟨r, (if_neg hc).trans hr⟩

/-- `fdt_check_header` reads nine words, and the tenth of a blob that is long enough for it. -/
theorem fdtCheckHeader_total (hc : fdt.Covers n) (hn : 36 ≤ n)
    (hsize : ∀ size, fdt.fdtTotalsize = some size → size.toNat ≤ n) :
    ∃ r, fdt.fdtCheckHeader = some r := by
  obtain ⟨magic, hmagic⟩ := exists_fdt32 hc (p := 0) (by omega)
  obtain ⟨totalsize, htotal⟩ := exists_fdt32 hc (p := 4) (by omega)
  obtain ⟨offDtStruct, hstruct⟩ := exists_fdt32 hc (p := 8) (by omega)
  obtain ⟨offDtStrings, hstrings⟩ := exists_fdt32 hc (p := 12) (by omega)
  obtain ⟨offMemRsvmap, hrsvmap⟩ := exists_fdt32 hc (p := 16) (by omega)
  obtain ⟨version, hversion⟩ := exists_fdt32 hc (p := 20) (by omega)
  obtain ⟨last, hlast⟩ := exists_fdt32 hc (p := 24) (by omega)
  obtain ⟨sizeDtStrings, hsizeStrings⟩ := exists_fdt32 hc (p := 32) (by omega)
  rw [fdtCheckHeader]
  refine checked fun _ => ?_
  rw [bind_of_some (show fdt.fdtMagic = some magic from hmagic)]
  refine checked fun _ => ?_
  rw [bind_of_some (show fdt.fdtVersion = some version from hversion)]
  refine checked fun hfirst => ?_
  rw [bind_of_some (show fdt.fdtLastCompVersion = some last from hlast)]
  refine checked fun _ => ?_
  rw [bind_of_some (show fdt.fdtLastCompVersion = some last from hlast)]
  refine checked fun _ => ?_
  rw [bind_of_some (show fdt.fdtTotalsize = some totalsize from htotal)]
  refine checked fun hlong => ?_
  refine checked fun _ => ?_
  rw [bind_of_some (show fdt.fdtOffMemRsvmap = some offMemRsvmap from hrsvmap)]
  refine checked fun _ => ?_
  rw [bind_of_some (show fdt.fdtOffDtStruct = some offDtStruct from hstruct)]
  refine checked fun _ => ?_
  rw [bind_of_some (show fdt.fdtOffMemRsvmap = some offMemRsvmap from hrsvmap)]
  refine checked fun _ => ?_
  have hok : ∃ ok, fdt.checkStruct (BitVec.ofNat 32 (fdtHeaderSize version)) totalsize version = some ok := by
    rw [checkStruct]
    by_cases hv : version < 17
    · rw [if_pos hv, bind_of_some (show fdt.fdtOffDtStruct = some offDtStruct from hstruct)]
      exact ⟨_, rfl⟩
    have h17 := (fdtHeaderSize_ge (w := version) (Nat.le_of_not_lt hfirst)).2.2 (Nat.le_of_not_lt hv)
    have := hsize totalsize htotal
    obtain ⟨sizeDtStruct, hsizeStruct⟩ := exists_fdt32 hc (p := 36) (by omega)
    rw [if_neg hv, bind_of_some (show fdt.fdtOffDtStruct = some offDtStruct from hstruct),
      bind_of_some (show fdt.fdtSizeDtStruct = some sizeDtStruct from hsizeStruct)]
    exact ⟨_, rfl⟩
  obtain ⟨ok, hok⟩ := hok
  rw [bind_of_some hok]
  refine checked fun _ => ?_
  rw [bind_of_some (show fdt.fdtOffDtStrings = some offDtStrings from hstrings),
    bind_of_some (show fdt.fdtSizeDtStrings = some sizeDtStrings from hsizeStrings)]
  exact checked fun _ => ⟨0, rfl⟩

section

variable (ha : fdt.Accepted h)

include ha

theorem Accepted.structSize_le : h.structSize + 32 < 2 ^ 31 := by
  have := ha.struct_le
  have := ha.struct_ge
  have := ha.totalsize_lt
  omega

theorem pastStruct_eq {uoffset len : BitVec 32}
    (hin : h.offDtStruct.toNat + uoffset.toNat + len.toNat ≤ h.totalsize.toNat) :
    fdt.pastStruct uoffset len = some (decide (h.structSize < uoffset.toNat + len.toNat)) := by
  have htotal := ha.totalsize_lt
  have hsum : (uoffset + len).toNat = uoffset.toNat + len.toNat := by
    rw [BitVec.toNat_add]
    omega
  rw [pastStruct, bind_of_some ha.version, FdtHeader.structSize]
  by_cases hv : 17 ≤ h.version.toNat
  · rw [if_pos (show h.version ≥ 0x11 from hv), if_neg (show ¬ uoffset + len < uoffset by rw [BitVec.lt_def]; omega),
      bind_of_some (ha.sizeDtStruct hv), if_pos hv, ← hsum]
    rfl
  · rw [if_neg (show ¬ h.version ≥ 0x11 from hv), if_neg hv, decide_eq_false (by omega)]
    rfl

/-- A pointer is given out if and only if the bytes are in the structure block. -/
theorem fdtOffsetPtr_eq {offset : Int} (hoff : offset < 2 ^ 31) (len : BitVec 32) : fdt.fdtOffsetPtr offset len =
    some (if 0 ≤ offset ∧ offset.toNat + len.toNat ≤ h.structSize then
      some (h.offDtStruct.toNat + offset.toNat) else none) := by
  have htotal := ha.totalsize_lt
  have hle := ha.struct_le
  have hlen := len.isLt
  rw [fdtOffsetPtr, bind_of_some ha.offDtStruct]
  dsimp only
  by_cases hneg : offset < 0
  · rw [if_pos hneg, if_neg (by omega)]
    rfl
  obtain ⟨off, rfl⟩ := Int.eq_ofNat_of_zero_le (Int.not_lt.mp hneg)
  have huoff : (BitVec.ofInt 32 (off : Int)).toNat = off := by
    rw [BitVec.toNat_ofInt]
    omega
  have habs : (BitVec.ofInt 32 (off : Int) + h.offDtStruct).toNat = off + h.offDtStruct.toNat := by
    rw [BitVec.toNat_add, huoff]
    omega
  rw [if_neg hneg, Int.toNat_natCast]
  by_cases hwrap : 2 ^ 32 ≤ off + h.offDtStruct.toNat + len.toNat
  · have hlt : BitVec.ofInt 32 (off : Int) + h.offDtStruct + len < BitVec.ofInt 32 (off : Int) + h.offDtStruct := by
      rw [BitVec.lt_def, BitVec.toNat_add, habs]
      omega
    rw [if_pos (.inr hlt), if_neg (by omega)]
    rfl
  have hsum : (BitVec.ofInt 32 (off : Int) + h.offDtStruct + len).toNat = off + h.offDtStruct.toNat + len.toNat := by
    rw [BitVec.toNat_add, habs]
    omega
  rw [if_neg (by rw [BitVec.lt_def, BitVec.lt_def, hsum, habs, huoff]; omega), bind_of_some ha.totalsize]
  by_cases hpast : h.totalsize.toNat < off + h.offDtStruct.toNat + len.toNat
  · rw [if_pos (show _ > _ from (by rw [gt_iff_lt, BitVec.lt_def, hsum]; exact hpast)), if_neg (by omega)]
    rfl
  rw [if_neg (by rw [gt_iff_lt, BitVec.lt_def, hsum]; exact hpast),
    bind_of_some (pastStruct_eq ha (by rw [huoff]; omega)), huoff]
  by_cases hin : h.structSize < off + len.toNat
  · rw [decide_eq_true hin, if_pos rfl, if_neg (by omega)]
    rfl
  · rw [decide_eq_false hin, if_neg Bool.false_ne_true, if_pos (by omega)]
    rfl

variable (hc : fdt.Covers (readable h)) {offset start : Int}

include hc

/-- The structure block can be read, -/
theorem exists_struct (hp : p < h.structSize) : ∃ b, fdt.load (h.offDtStruct.toNat + p) = some b := by
  have := ha.struct_le
  exact exists_load hc (by rw [readable]; omega)

theorem exists_struct32 (hp : p + 4 ≤ h.structSize) : ∃ w, fdt.fdt32ToCpu (h.offDtStruct.toNat + p) = some w := by
  have := ha.struct_le
  exact exists_fdt32 hc (by rw [readable]; omega)

/-! ## Tags -/

/-- The name of a node ends in the structure block, or this ends first. -/
theorem skipName_total (hle : offset ≤ h.structSize) : ∃ r, fdt.skipName offset = some r ∧
    ∀ o ∈ r, offset < o ∧ o ≤ h.structSize := by
  have hsize := ha.structSize_le
  refine loop_total (fun o => offset ≤ o ∧ o ≤ h.structSize) (fun o => h.structSize - o.toNat) _ ?_
    ⟨Int.le_refl _, hle⟩ (by rw [intLimit]; omega)
  rintro o ⟨hge, hle⟩
  rw [skipNameBody, fdtOffsetPtr_eq ha (by omega), Option.bind_eq_bind, Option.bind_some]
  by_cases hin : 0 ≤ o ∧ o.toNat + (1 : BitVec 32).toNat ≤ h.structSize
  swap
  · rw [if_neg hin]
    exact .inr ⟨none, rfl, fun o ho => by cases ho⟩
  have hlt : o.toNat + 1 ≤ h.structSize := hin.2
  obtain ⟨b, hb⟩ := exists_struct ha hc (p := o.toNat) (by omega)
  rw [if_pos hin]
  simp only [hb, Option.bind_eq_bind, Option.bind_some]
  by_cases hb0 : b ≠ 0
  · rw [if_pos hb0]
    exact .inl ⟨o + 1, rfl, ⟨by omega, by omega⟩, by omega⟩
  · rw [if_neg hb0]
    refine .inr ⟨some (o + 1), rfl, fun o' ho => ?_⟩
    cases ho
    omega

omit ha hc in
/-- The conversion to `int` of an offset that may be just too large. -/
theorem toInt_ofInt_eq {v : Int} (h0 : 0 ≤ v) (hv : v < 2 ^ 32) :
    (BitVec.ofInt 32 v).toInt = if v < 2 ^ 31 then v else v - 2 ^ 32 := by
  rw [BitVec.toInt_ofInt, Int.bmod_eq_emod]
  split <;> split <;> omega

/-- Where the value of a property ends, with `offset` after its tag. Before version 16 it is
moved on to an offset that is a multiple of 8. -/
def valueEnd (h : FdtHeader) (offset len : Nat) : Nat :=
  if h.version.toNat < 0x10 ∧ 8 ≤ len ∧ (offset + 8) % 8 ≠ 0 then offset + 8 + len + 4 else offset + 8 + len

/-- The offset after a property, which may be too large for an `int`. -/
theorem skipProperty_total (h0 : 0 ≤ offset) (hle : offset ≤ h.structSize) : ∃ r, fdt.skipProperty offset = some r ∧
    ∀ o ∈ r, ∃ len, fdt.fdt32ToCpu (h.offDtStruct.toNat + offset.toNat) = some len ∧
      offset.toNat + len.toNat < 2 ^ 31 ∧ (o = valueEnd h offset.toNat len.toNat ∨
        o = valueEnd h offset.toNat len.toNat - 2 ^ 32 ∧ 2 ^ 31 ≤ valueEnd h offset.toNat len.toNat) := by
  have hsize := ha.structSize_le
  rw [skipProperty, bind_of_some (fdtOffsetPtr_eq ha (by omega) 4)]
  by_cases hin : 0 ≤ offset ∧ offset.toNat + (4 : BitVec 32).toNat ≤ h.structSize
  swap
  · rw [if_neg hin]
    exact ⟨none, rfl, fun o ho => by cases ho⟩
  obtain ⟨len, hlen⟩ := exists_struct32 ha hc (p := offset.toNat) hin.2
  have hlt := len.isLt
  rw [if_pos hin]
  dsimp only
  rw [bind_of_some hlen]
  obtain ⟨off, rfl⟩ := Int.eq_ofNat_of_zero_le h0
  rw [Int.toNat_natCast] at *
  have huoff : (BitVec.ofInt 32 (off : Int)).toNat = off := by
    rw [BitVec.toNat_ofInt]
    omega
  by_cases hsum : INT_MAX ≤ len + BitVec.ofInt 32 (off : Int) ∨
      len + BitVec.ofInt 32 (off : Int) < BitVec.ofInt 32 (off : Int)
  · rw [if_pos hsum]
    exact ⟨none, rfl, fun o ho => by cases ho⟩
  rw [if_neg hsum]
  simp only [BitVec.le_def, BitVec.lt_def, BitVec.toNat_add, huoff, INT_MAX, BitVec.reduceToNat, not_or, Nat.not_le,
    Nat.not_lt] at hsum
  have hoffset : (off : Int) + (12 - FDT_TAGSIZE + len.toNat) = ((off + 8 + len.toNat : Nat) : Int) := by
    rw [FDT_TAGSIZE]
    omega
  have hmod : (BitVec.ofInt 32 (BitVec.ofInt 32 ((off + 8 + len.toNat : Nat) : Int)).toInt - len).toNat % 8 =
      (off + 8) % 8 := by
    rw [BitVec.ofInt_toInt, BitVec.toNat_sub, BitVec.toNat_ofInt]
    omega
  rw [hoffset, bind_of_some ha.version, hmod, toInt_ofInt_eq (by omega) (by omega)]
  by_cases hpad : h.version < 0x10 ∧ 8 ≤ len ∧ (off + 8) % 8 ≠ 0
  · have hend : valueEnd h off len.toNat = off + 8 + len.toNat + 4 := if_pos hpad
    rw [if_pos hpad]
    refine ⟨_, rfl, fun o ho => ⟨len, hlen, by omega, ?_⟩⟩
    rw [← Option.mem_some_iff.mp ho, hend]
    split <;> omega
  · have hend : valueEnd h off len.toNat = off + 8 + len.toNat := if_neg hpad
    rw [if_neg hpad]
    refine ⟨_, rfl, fun o ho => ⟨len, hlen, by omega, ?_⟩⟩
    rw [← Option.mem_some_iff.mp ho, hend]
    split <;> omega

/-! ## The next tag -/

/-- A property at `offset`: its value, of `len` bytes, is in the structure block. -/
structure PropertyAt (fdt : FdtBlob) (h : FdtHeader) (offset : Int) (len : BitVec 32) : Prop where
  nonneg : 0 ≤ offset
  len_eq : fdt.fdt32ToCpu (h.offDtStruct.toNat + offset.toNat + 4) = some len
  end_le : valueEnd h (offset.toNat + 4) len.toNat ≤ h.structSize

/-- What `fdt_next_tag` returns: an end with an error, or a tag that is in the structure block. -/
def TagRead (fdt : FdtBlob) (h : FdtHeader) (start : Int) (tag : BitVec 32) (next : Int) : Prop :=
  (tag = FDT_END ∧ (next = -FDT_ERR_TRUNCATED ∨ next = -FDT_ERR_BADSTRUCTURE)) ∨
    0 ≤ start ∧ start + 4 ≤ next ∧ next < h.structSize + 4 ∧ next % 4 = 0 ∧
      tag ∈ [FDT_BEGIN_NODE, FDT_END_NODE, FDT_PROP, FDT_NOP, FDT_END] ∧
      (tag = FDT_PROP → ∃ len, PropertyAt fdt h start len)

theorem fdtNextTag_total (h0 : start < 2 ^ 31) : ∃ tag next, fdt.fdtNextTag start = some (tag, next) ∧
    TagRead fdt h start tag next := by
  have hsize := ha.structSize_le
  rw [fdtNextTag, bind_of_some (fdtOffsetPtr_eq ha (by omega) 4)]
  by_cases hin : 0 ≤ start ∧ start.toNat + (4 : BitVec 32).toNat ≤ h.structSize
  swap
  · rw [if_neg hin]
    exact ⟨_, _, rfl, .inl ⟨rfl, .inl rfl⟩⟩
  rw [if_pos hin]
  obtain ⟨hstart, hin⟩ := hin
  change _ + 4 ≤ _ at hin
  obtain ⟨tag, htag⟩ := exists_struct32 ha hc hin
  dsimp only
  rw [bind_of_some htag]
  have hskip : ∃ r, fdt.skipTag tag (start + FDT_TAGSIZE) = some r ∧ ∀ o ∈ r, ∃ v : Int, start + 4 ≤ v ∧
      v < 2 ^ 31 + 2 ^ 30 ∧ (o = v ∨ o = v - 2 ^ 32 ∧ 2 ^ 31 ≤ v) ∧
      tag ∈ [FDT_BEGIN_NODE, FDT_END_NODE, FDT_PROP, FDT_NOP, FDT_END] ∧
      (tag = FDT_PROP → v ≤ h.structSize → ∃ len, PropertyAt fdt h start len) := by
    have hoff : start + FDT_TAGSIZE = start + 4 := rfl
    rw [skipTag, hoff]
    by_cases hbegin : tag = FDT_BEGIN_NODE
    · obtain ⟨r, hr, hskip⟩ := skipName_total ha hc (show start + 4 ≤ (h.structSize : Int) by omega)
      subst hbegin
      rw [if_pos rfl]
      refine ⟨r, hr, fun o ho => ⟨o, ?_, ?_, .inl rfl, by decide, fun ht => absurd ht (by decide)⟩⟩ <;>
      · have := hskip o ho
        omega
    rw [if_neg hbegin]
    by_cases hprop : tag = FDT_PROP
    · obtain ⟨r, hr, hskip⟩ := skipProperty_total ha hc (show 0 ≤ start + 4 by omega) (by omega)
      subst hprop
      rw [if_pos rfl]
      refine ⟨r, hr, fun o ho => ?_⟩
      obtain ⟨len, hlen, hlt, ho⟩ := hskip o ho
      rw [show (start + 4).toNat = start.toNat + 4 by omega] at hlen hlt ho
      have hge : start.toNat + 4 + 8 ≤ valueEnd h (start.toNat + 4) len.toNat ∧
          valueEnd h (start.toNat + 4) len.toNat < 2 ^ 31 + 16 := by
        rw [valueEnd]
        split <;> omega
      exact ⟨valueEnd h (start.toNat + 4) len.toNat, by omega, by omega, by omega, by decide, fun _ hle =>
        ⟨len, hstart, hlen, by omega⟩⟩
    rw [if_neg hprop]
    by_cases htags : tag = FDT_END ∨ tag = FDT_END_NODE ∨ tag = FDT_NOP
    · rw [if_pos htags]
      refine ⟨_, rfl, fun o ho => ⟨o, ?_, ?_, .inl rfl, ?_, fun ht => absurd ht hprop⟩⟩
      · exact Int.le_of_eq (Option.mem_some_iff.mp ho)
      · rw [← Option.mem_some_iff.mp ho]
        omega
      · rcases htags with rfl | rfl | rfl <;> decide
    · rw [if_neg htags]
      exact ⟨none, rfl, fun o ho => by cases ho⟩
  obtain ⟨r, hr, hskip⟩ := hskip
  rw [bind_of_some hr]
  cases r with
  | none => exact ⟨_, _, rfl, .inl ⟨rfl, .inr rfl⟩⟩
  | some o =>
    obtain ⟨v, hge, hlt, ho, hmem, hprop⟩ := hskip o rfl
    have hlen : (BitVec.ofInt 32 (o - start)).toNat = (v - start).toNat := by
      rw [BitVec.toNat_ofInt]
      omega
    dsimp only
    rw [bind_of_some (fdtOffsetPtr_eq ha (by omega) _), hlen]
    by_cases hfits : 0 ≤ start ∧ start.toNat + (v - start).toNat ≤ h.structSize
    · rw [if_pos hfits]
      refine ⟨_, _, rfl, .inr ⟨hstart, ?_, ?_, ?_, hmem, fun ht => hprop ht (by omega)⟩⟩ <;>
      · rw [fdtTagalign, FDT_TAGSIZE]
        omega
    · rw [if_neg hfits]
      exact ⟨_, _, rfl, .inl ⟨rfl, .inr rfl⟩⟩

theorem fdtCheckTagOffset_total (tag : BitVec 32) (h0 : offset < 2 ^ 31) :
    ∃ r, fdt.fdtCheckTagOffset tag offset = some r ∧ (r < 0 ∨ 0 ≤ offset ∧ offset + 4 ≤ r ∧ r < h.structSize + 4 ∧
      (tag = FDT_PROP → ∃ len, PropertyAt fdt h offset len)) := by
  rw [fdtCheckTagOffset]
  by_cases hbad : offset < 0 ∨ offset % FDT_TAGSIZE ≠ 0
  · rw [if_pos hbad]
    exact ⟨_, rfl, .inl (by decide)⟩
  obtain ⟨found, next, hnext, hread⟩ := fdtNextTag_total ha hc h0
  rw [if_neg hbad, bind_of_some hnext]
  by_cases hfound : found ≠ tag
  · exact ⟨_, if_pos hfound, .inl (by decide)⟩
  refine ⟨_, if_neg hfound, ?_⟩
  rw [← not_not.mp hfound]
  rcases hread with ⟨-, rfl | rfl⟩ | ⟨h0, hge, hlt, -, -, hprop⟩
  · exact .inl (by decide)
  · exact .inl (by decide)
  · exact .inr ⟨h0, hge, hlt, hprop⟩

/-! ## Nodes -/

theorem nextNodeBody_total (depth : Option Int) (hlt : offset < 2 ^ 31) :
    (∃ next d, fdt.nextNodeBody (offset, depth) = some (.again (next, d)) ∧ 0 ≤ offset ∧ offset < next ∧
        next < h.structSize + 4) ∨
      ∃ r d, fdt.nextNodeBody (offset, depth) = some (.leave (r, d)) ∧ (r < 0 ∨ offset ≤ r ∧ r < h.structSize + 4) := by
  obtain ⟨tag, next, hnext, hread⟩ := fdtNextTag_total ha hc hlt
  rw [nextNodeBody, bind_of_some hnext]
  dsimp only
  rcases hread with ⟨rfl, hend⟩ | ⟨h0, hge, hnlt, -, hmem, -⟩
  · rw [if_neg (by decide), if_neg (by decide), if_pos rfl]
    have hneg : next < 0 := by rcases hend with rfl | rfl <;> decide
    split
    · exact .inr ⟨_, _, rfl, .inl (by decide)⟩
    · exact .inr ⟨_, _, rfl, .inl hneg⟩
  have hagain (d : Option Int) : 0 ≤ offset ∧ offset < next ∧ next < h.structSize + 4 := ⟨h0, by omega, hnlt⟩
  by_cases hbegin : tag = FDT_BEGIN_NODE
  · rw [if_pos hbegin]
    exact .inr ⟨_, _, rfl, .inr ⟨Int.le_refl _, by omega⟩⟩
  rw [if_neg hbegin]
  by_cases hendNode : tag = FDT_END_NODE
  · rw [if_pos hendNode]
    cases depth with
    | none => exact .inl ⟨_, _, rfl, hagain none⟩
    | some d =>
      dsimp only
      split
      · exact .inr ⟨_, _, rfl, .inr ⟨by omega, hnlt⟩⟩
      · exact .inl ⟨_, _, rfl, hagain none⟩
  rw [if_neg hendNode]
  by_cases hend : tag = FDT_END
  · rw [if_pos hend, if_pos (.inl (by omega))]
    exact .inr ⟨_, _, rfl, .inl (by decide)⟩
  · rw [if_neg hend]
    exact .inl ⟨_, _, rfl, hagain none⟩

/-- The next node is after `offset`, in the structure block. -/
theorem fdtNextNode_total (depth : Option Int) (hlt : offset < 2 ^ 31) :
    ∃ r d, fdt.fdtNextNode offset depth = some (r, d) ∧ (r < 0 ∨ offset < r ∧ r < 2 ^ 31 - 1) := by
  have hsize := ha.structSize_le
  have hrun {first : Int} (hfirst : 0 ≤ first) (hlt : first < h.structSize + 4) :
      ∃ rd, loop fdt.nextNodeBody intLimit (first, depth) = some rd ∧
          (rd.1 < 0 ∨ first ≤ rd.1 ∧ rd.1 < h.structSize + 4) := by
    refine loop_total (fun s => first ≤ s.1 ∧ s.1 < (h.structSize : Int) + 4)
      (fun s => h.structSize + 4 - s.1.toNat) _ ?_
      ⟨Int.le_refl _, hlt⟩ (by rw [intLimit]; omega)
    rintro ⟨o, d⟩ ⟨hge, hlt⟩
    dsimp only at hge hlt ⊢
    rcases nextNodeBody_total ha hc d (show o < 2 ^ 31 by omega) with
      ⟨next, d', hbody, h0, hgt, hnlt⟩ | ⟨r, d', hbody, hr⟩
    · exact .inl ⟨_, hbody, ⟨by omega, hnlt⟩, by dsimp only; omega⟩
    · exact .inr ⟨_, hbody, by dsimp only; omega⟩
  rw [fdtNextNode]
  by_cases h0 : 0 ≤ offset
  · obtain ⟨next, hnext, hread⟩ := fdtCheckTagOffset_total ha hc FDT_BEGIN_NODE hlt
    rw [if_pos h0, bind_of_some (show fdt.fdtCheckNodeOffset offset = some next from hnext)]
    beta_reduce
    by_cases hneg : next < 0
    · exact ⟨_, _, if_pos hneg, .inl hneg⟩
    rw [if_neg hneg]
    obtain ⟨-, hge, hnlt, -⟩ := hread.resolve_left hneg
    obtain ⟨⟨r, d⟩, hloop, hr⟩ := hrun (show 0 ≤ next by omega) hnlt
    exact ⟨r, d, hloop, by dsimp only at hr; omega⟩
  · obtain ⟨⟨r, d⟩, hloop, hr⟩ := hrun (Int.le_refl 0) (by omega)
    rw [if_neg h0]
    exact ⟨r, d, hloop, by dsimp only at hr; omega⟩

/-! ## Properties -/

theorem nextprop_total (hlt : offset < h.structSize + 4) : ∃ r, fdt.nextprop offset = some r ∧
    (r < 0 ∨ offset ≤ r ∧ r < h.structSize + 4) := by
  have hsize := ha.structSize_le
  refine loop_total (fun o => offset ≤ o ∧ o < (h.structSize : Int) + 4) (fun o => h.structSize + 4 - o.toNat) _ ?_
    ⟨Int.le_refl _, hlt⟩ (by rw [intLimit]; omega)
  rintro o ⟨hge, hlt⟩
  obtain ⟨tag, next, hnext, hread⟩ := fdtNextTag_total ha hc (show o < 2 ^ 31 by omega)
  rw [nextpropBody, bind_of_some hnext]
  dsimp only
  by_cases hend : tag = FDT_END
  · rw [if_pos hend]
    by_cases h0 : 0 ≤ next
    · exact .inr ⟨_, if_pos h0, .inl (by decide)⟩
    · exact .inr ⟨_, if_neg h0, .inl (Int.not_le.mp h0)⟩
  obtain ⟨h0, hge', hnlt, -⟩ := hread.resolve_left fun he => hend he.1
  rw [if_neg hend]
  by_cases hprop : tag = FDT_PROP
  · exact .inr ⟨_, if_pos hprop, .inr ⟨hge, hlt⟩⟩
  rw [if_neg hprop]
  by_cases hnop : tag = FDT_NOP
  · exact .inl ⟨_, if_pos hnop, ⟨by omega, hnlt⟩, by omega⟩
  · exact .inr ⟨_, if_neg hnop, .inl (by decide)⟩

/-- The first property of a node and the next one after a property are after them. -/
theorem propertyOffset_total (tag : BitVec 32) (hlt : offset < 2 ^ 31) :
    ∃ r, (do let offset ← fdt.fdtCheckTagOffset tag offset; if offset < 0 then return offset else fdt.nextprop offset) =
        some r ∧ (r < 0 ∨ 0 ≤ offset ∧ offset < r ∧ r < h.structSize + 4) := by
  obtain ⟨next, hnext, hread⟩ := fdtCheckTagOffset_total ha hc tag hlt
  rw [bind_of_some hnext]
  by_cases hneg : next < 0
  · exact ⟨_, if_pos hneg, .inl hneg⟩
  obtain ⟨h0, hge, hnlt, -⟩ := hread.resolve_left hneg
  obtain ⟨r, hr, hread⟩ := nextprop_total ha hc hnlt
  exact ⟨r, (if_neg hneg).trans hr, by omega⟩

theorem fdtGetPropertyByOffset_total (hlt : offset < 2 ^ 31) :
    ∃ r len, fdt.fdtGetPropertyByOffset offset = some (r, len) ∧
      ∀ prop ∈ r, prop = h.offDtStruct.toNat + offset.toNat ∧ ∃ w, PropertyAt fdt h offset w ∧ len = w.toInt := by
  obtain ⟨next, hnext, hread⟩ := fdtCheckTagOffset_total ha hc FDT_PROP hlt
  rw [fdtGetPropertyByOffset, bind_of_some (show fdt.fdtCheckPropOffset offset = some next from hnext)]
  by_cases hneg : next < 0
  · exact ⟨_, _, if_pos hneg, fun prop hp => by cases hp⟩
  obtain ⟨h0, hge, hnlt, hprop⟩ := hread.resolve_left hneg
  obtain ⟨w, hw⟩ := hprop rfl
  rw [if_neg hneg, bind_of_some ha.offDtStruct]
  rw [bind_of_some hw.len_eq]
  exact ⟨_, _, rfl, fun prop hp => ⟨(Option.mem_some_iff.mp hp).symm, w, hw, rfl⟩⟩

/-! ## Strings -/

omit hc in
theorem probeMagic_eq : fdt.probeMagic = some 0 := by
  obtain ⟨last, hlast, hload⟩ := ha.lastCompVersion
  rw [probeMagic, bind_of_some ha.magic, if_pos rfl, bind_of_some ha.version,
    if_neg (show ¬ h.version < FDT_FIRST_SUPPORTED_VERSION from Nat.not_lt.mpr ha.version_ge), bind_of_some hload,
    if_neg (show ¬ last > FDT_LAST_SUPPORTED_VERSION from Nat.not_lt.mpr hlast)]
  rfl

omit hc in
theorem fdtRoProbe_eq : fdt.fdtRoProbe =
    some (if h.totalsize.toNat < 2 ^ 31 - 1 then (h.totalsize.toNat : Int) else -FDT_ERR_TRUNCATED) := by
  rw [fdtRoProbe, bind_of_some ha.totalsize, if_neg (not_not.mpr ha.aligned), bind_of_some (probeMagic_eq ha),
    if_neg (by decide)]
  exact (apply_ite some _ _ _).symm

omit hc in
/-- The length that is looked at stays in the blob. -/
theorem stringLimit_total (stroffset : Int) (len : BitVec 32) : ∃ r, fdt.stringLimit stroffset len = some r ∧
    ∀ n, r = .ok n → n.toNat ≤ len.toNat := by
  rw [stringLimit, bind_of_some ha.magic, if_pos rfl]
  have herr (e : Int) : ∀ n : BitVec 32, Except.error e = .ok n → n.toNat ≤ len.toNat := fun n hn => by cases hn
  have hself : ∀ n : BitVec 32, (.ok len : Except Int _) = .ok n → n.toNat ≤ len.toNat := fun n hn => by
    rw [Except.ok.inj hn]
  by_cases hneg : stroffset < 0
  · exact ⟨_, if_pos hneg, herr _⟩
  rw [if_neg hneg, bind_of_some ha.version]
  by_cases hv : h.version ≥ 17
  swap
  · exact ⟨_, if_neg hv, hself⟩
  rw [if_pos hv, bind_of_some ha.sizeDtStrings]
  by_cases hpast : BitVec.ofInt 32 stroffset ≥ h.sizeDtStrings
  · exact ⟨_, if_pos hpast, herr _⟩
  rw [if_neg hpast, bind_of_some ha.sizeDtStrings]
  by_cases hlt : h.sizeDtStrings - BitVec.ofInt 32 stroffset < len
  · rw [if_pos hlt, bind_of_some ha.sizeDtStrings]
    refine ⟨_, rfl, fun n hn => ?_⟩
    rw [← Except.ok.inj hn]
    exact Nat.le_of_lt hlt
  · exact ⟨_, if_neg hlt, hself⟩

/-- A string ends in the blob, or is none. -/
theorem fdtGetString_total (stroffset : Int) : ∃ r len, fdt.fdtGetString stroffset = some (r, len) ∧
    ∀ s ∈ r, 0 ≤ len ∧ s + len.toNat < h.totalsize.toNat := by
  have htotal := ha.totalsize_lt
  rw [fdtGetString, bind_of_some (fdtRoProbe_eq ha)]
  by_cases hlt : h.totalsize.toNat < 2 ^ 31 - 1
  swap
  · rw [if_neg hlt]
    exact ⟨_, _, if_pos (by decide), fun s hs => by cases hs⟩
  rw [if_pos hlt, if_neg (by omega), bind_of_some ha.offDtStrings]
  have hsize : (BitVec.ofInt 32 (h.totalsize.toNat : Int)).toNat = h.totalsize.toNat := by
    rw [BitVec.toNat_ofInt]
    omega
  dsimp only
  generalize BitVec.ofInt 32 stroffset + h.offDtStrings = absoffset
  by_cases hpast : absoffset ≥ BitVec.ofInt 32 (h.totalsize.toNat : Int)
  · exact ⟨_, _, if_pos hpast, fun s hs => by cases hs⟩
  obtain ⟨limit, hlimit, hle⟩ := stringLimit_total ha stroffset
    (BitVec.ofInt 32 (h.totalsize.toNat : Int) - absoffset)
  rw [if_neg hpast, bind_of_some hlimit]
  rw [ge_iff_le, BitVec.le_def, hsize, Nat.not_le] at hpast
  cases limit with
  | error err => exact ⟨_, _, rfl, fun s hs => by cases hs⟩
  | ok len =>
    have hlen := hle len rfl
    rw [BitVec.toNat_sub, hsize] at hlen
    obtain ⟨n, hn, hfound⟩ := memchr_total (p := fun i => fdt.load (absoffset.toNat + i)) 0 (n := len.toNat) fun i hi =>
      hc _ (by rw [readable]; omega)
    dsimp only
    rw [bind_of_some hn]
    cases n with
    | none => exact ⟨_, _, rfl, fun s hs => by cases hs⟩
    | some n =>
      refine ⟨_, _, rfl, fun s hs => ?_⟩
      have := hfound n rfl
      rw [← Option.mem_some_iff.mp hs, Int.toNat_natCast]
      omega

theorem fdtStringEq_total (stroffset : Int) {s : List Byte} {len : Nat} (hs : len ≤ s.length) :
    ∃ r, fdt.fdtStringEq stroffset s len = some r := by
  obtain ⟨r, slen, hr, hin⟩ := fdtGetString_total ha hc stroffset
  rw [fdtStringEq, bind_of_some hr]
  cases r with
  | none => exact ⟨_, rfl⟩
  | some p =>
    obtain ⟨h0, hlt⟩ := hin p rfl
    dsimp only
    by_cases hlen : slen = len
    swap
    · exact ⟨_, if_neg hlen⟩
    obtain ⟨c, hcmp⟩ := memcmp_total (x := fun i => fdt.load (p + i)) (y := fun i => s[i]?) (n := len)
      (fun i hi => hc _ (by rw [readable]; omega)) fun i hi => by simp; omega
    rw [if_pos hlen, bind_of_some hcmp]
    exact ⟨_, rfl⟩

/-! ## Values -/

/-- A property that is found has its value in the structure block. -/
theorem fdtGetPropertyNamelen_total {name : List Byte} {namelen : Nat} (hname : namelen ≤ name.length)
    (hlt : offset < 2 ^ 31) :
    ∃ r len, fdt.fdtGetPropertyNamelen offset name namelen = some (r, len) ∧
      ∀ q ∈ r, q.1 = h.offDtStruct.toNat + q.2.toNat ∧ ∃ w, PropertyAt fdt h q.2 w ∧ len = w.toInt := by
  have hsize := ha.structSize_le
  obtain ⟨first, hfirst, hread⟩ := propertyOffset_total ha hc FDT_BEGIN_NODE hlt
  rw [fdtGetPropertyNamelen, bind_of_some (show fdt.fdtFirstPropertyOffset offset = some first from hfirst)]
  suffices hrun : ∃ q, loop (fdt.getPropertyBody name namelen) intLimit first = some q ∧
      ∀ r ∈ q.1, r.1 = h.offDtStruct.toNat + r.2.toNat ∧ ∃ w, PropertyAt fdt h r.2 w ∧ q.2 = w.toInt by
    obtain ⟨⟨r, len⟩, hq⟩ := hrun
    exact ⟨r, len, hq⟩
  refine loop_total (fun o => o < (h.structSize : Int) + 4)
    (fun o => if 0 ≤ o then h.structSize + 5 - o.toNat else 0) _ ?_
    (by omega) (by rw [intLimit]; split <;> omega)
  intro o hlt
  rw [getPropertyBody]
  by_cases h0 : 0 ≤ o
  swap
  · exact .inr ⟨_, if_neg h0, fun r hr => by cases hr⟩
  obtain ⟨prop, len, hprop, hin⟩ := fdtGetPropertyByOffset_total ha hc (show o < 2 ^ 31 by omega)
  rw [if_pos h0, bind_of_some hprop]
  cases prop with
  | none => exact .inr ⟨_, rfl, fun r hr => by cases hr⟩
  | some prop =>
    obtain ⟨hp, w, hw, hlen⟩ := hin prop rfl
    have hend := hw.end_le
    have hge : o.toNat + 4 + 8 ≤ valueEnd h (o.toNat + 4) w.toNat := by
      rw [valueEnd]
      split <;> omega
    obtain ⟨nameoff, hoff⟩ := exists_struct32 ha hc (p := o.toNat + 8) (by omega)
    obtain ⟨eq, heq⟩ := fdtStringEq_total ha hc nameoff.toInt hname
    dsimp only
    rw [hp, Nat.add_assoc, bind_of_some hoff, bind_of_some heq]
    by_cases heq : eq = true
    · rw [if_pos heq]
      refine .inr ⟨_, rfl, fun r hr => ?_⟩
      rw [← Option.mem_some_iff.mp hr]
      exact ⟨rfl, w, hw, hlen⟩
    · obtain ⟨next, hnext, hread⟩ := propertyOffset_total ha hc FDT_PROP (show o < 2 ^ 31 by omega)
      rw [if_neg heq, bind_of_some (show fdt.fdtNextPropertyOffset o = some next from hnext)]
      refine .inl ⟨next, rfl, by omega, ?_⟩
      rw [if_pos h0]
      split <;> omega

/-- The value of a property is in the blob. -/
theorem fdtGetpropNamelen_total {name : List Byte} {namelen : Nat} (hname : namelen ≤ name.length)
    (hlt : offset < 2 ^ 31) :
    ∃ r len, fdt.fdtGetpropNamelen offset name namelen = some (r, len) ∧
      ∀ p ∈ r, 0 ≤ len ∧ p + len.toNat ≤ h.totalsize.toNat := by
  have hsize := ha.structSize_le
  have hle := ha.struct_le
  obtain ⟨r, len, hr, hin⟩ := fdtGetPropertyNamelen_total ha hc hname hlt
  rw [fdtGetpropNamelen, bind_of_some hr]
  rcases r with - | ⟨prop, poffset⟩
  · exact ⟨_, _, rfl, fun p hp => by cases hp⟩
  obtain ⟨hprop, w, hw, rfl⟩ := hin _ rfl
  have hend := hw.end_le
  have h0 := hw.nonneg
  rw [valueEnd] at hend
  have hw_lt : w.toNat < 2 ^ 31 := by split at hend <;> omega
  have hlen : w.toInt = w.toNat := BitVec.toInt_eq_toNat_of_lt (by omega)
  dsimp only at hprop ⊢
  rw [bind_of_some ha.version, hprop, bind_of_some hw.len_eq]
  by_cases hpad : h.version < 0x10 ∧ (poffset + 12) % 8 ≠ 0 ∧ 8 ≤ w
  · rw [if_pos hpad]
    have hpad' : h.version.toNat < 0x10 ∧ 8 ≤ w.toNat ∧ (poffset.toNat + 4 + 8) % 8 ≠ 0 :=
      ⟨hpad.1, hpad.2.2, by have := hpad.2.1; omega⟩
    rw [if_pos hpad'] at hend
    refine ⟨_, _, rfl, fun p hp => ?_⟩
    rw [← Option.mem_some_iff.mp hp, hlen]
    omega
  · rw [if_neg hpad]
    refine ⟨_, _, rfl, fun p hp => ?_⟩
    rw [← Option.mem_some_iff.mp hp, hlen]
    split at hend <;> omega

omit ha hc in
theorem strlen_total (s : List Byte) : ∃ n, strlen (s ++ [0]) = some n ∧ n ≤ (s ++ [0]).length := by
  induction s with
  | nil => exact ⟨0, rfl, by simp⟩
  | cons b s ih =>
    obtain ⟨n, hn, hle⟩ := ih
    rw [List.cons_append, strlen, hn]
    by_cases hb : b ≠ 0
    · exact ⟨n + 1, if_pos hb, by simpa using hle⟩
    · exact ⟨0, if_neg hb, by simp⟩

theorem fdtGetprop_total (name : String) (hlt : offset < 2 ^ 31) : ∃ r len, fdt.fdtGetprop offset name = some (r, len) ∧
    ∀ p ∈ r, 0 ≤ len ∧ p + len.toNat ≤ h.totalsize.toNat := by
  obtain ⟨n, hn, hle⟩ := strlen_total (literal name)
  obtain ⟨r, len, hr, hin⟩ := fdtGetpropNamelen_total ha hc hle hlt
  refine ⟨r, len, ?_, hin⟩
  rw [fdtGetprop]
  exact (bind_of_some hn _).trans hr

/-! ## Cells -/

theorem fdtCells_total (name : String) (hlt : offset < 2 ^ 31) : ∃ r, fdt.fdtCells offset name = some r := by
  have htotal := ha.totalsize_lt
  obtain ⟨p, len, hp, hin⟩ := fdtGetprop_total ha hc name hlt
  rw [fdtCells, bind_of_some hp]
  cases p with
  | none => exact ⟨_, rfl⟩
  | some p =>
    have hle := hin p rfl
    dsimp only
    by_cases hlen : len ≠ 4
    · exact ⟨_, if_pos hlen⟩
    obtain ⟨val, hval⟩ := exists_fdt32 hc (p := p) (by rw [readable]; omega)
    rw [if_neg hlen, bind_of_some hval]
    by_cases hmax : val.toNat > FDT_MAX_NCELLS
    · exact ⟨_, if_pos hmax⟩
    · exact ⟨_, if_neg hmax⟩

theorem fdtAddressCells_total (hlt : offset < 2 ^ 31) : ∃ r, fdt.fdtAddressCells offset = some r := by
  obtain ⟨val, hval⟩ := fdtCells_total ha hc "#address-cells" hlt
  rw [fdtAddressCells, bind_of_some hval]
  split
  · exact ⟨_, rfl⟩
  split <;> exact ⟨_, rfl⟩

theorem fdtSizeCells_total (hlt : offset < 2 ^ 31) : ∃ r, fdt.fdtSizeCells offset = some r := by
  obtain ⟨val, hval⟩ := fdtCells_total ha hc "#size-cells" hlt
  rw [fdtSizeCells, bind_of_some hval]
  split <;> exact ⟨_, rfl⟩

end

end RvOs.FdtBlob
