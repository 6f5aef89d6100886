import RvOs.Proof.Outline
import RvOs.Proof.Sv39

/-!
# The kernel's address space

A range in one half of the canonical addresses translates `va` to its own
physical address (`MapRange.translate_iff`). With every range below 2³⁸ the
address space of a successful `paging_init` is `KernelMap`
(`pagingInit_kernelMap`).
-/

namespace RvOs

variable {sym : KernelSymbols} {platform : PlatformInfo} {b b' : BootState} {g va pa fl : U64} {r : MapRange}

/-- The address `va` is in a range, and `pa` and `fl` are what it translates to. -/
def MapRange.Maps (r : MapRange) (va pa fl : U64) : Prop :=
  r.virtualStart.toNat ≤ va.toNat ∧ va.toNat < r.virtualStart.toNat + 4096 * r.pages ∧
    pa = r.physicalStart + (va - r.virtualStart) ∧ fl = leafFlags r.flags

/-- A range of canonical pages, to frames below 2⁵⁶. -/
structure MapRange.Legal (r : MapRange) : Prop where
  flags : LegalFlags r.flags
  half : r.pages = 0 ∨ InHalf r.virtualStart r.pages
  frames : r.pages = 0 ∨ Aligned r.physicalStart ∧ r.physicalStart.toNat + 4096 * r.pages ≤ 2 ^ 56

/-- Offset `x` of a range of frames, by page and offset in the page. -/
theorem toNat_pageOff_div {p : U64} {n : Nat} (h : p.toNat + 4096 * n ≤ 2 ^ 56) {x : Nat} (hx : x < 4096 * n) :
    (p + pageOff (x / 4096)).toNat = p.toNat + x / 4096 * 4096 := by
  rw [BitVec.toNat_add, toNat_pageOff (by omega)]; omega

theorem MapRange.Legal.leaf (h : r.Legal) {v : Vpn} {e : U64} (hl : r.Leaf v e) : LegalLeaf e := by
  obtain ⟨j, hj, -, rfl⟩ := hl
  rcases h.frames with h0 | ⟨-, hlt⟩
  · omega
  · refine legalLeaf_pte ?_ h.flags
    have := toNat_pageOff_div hlt (x := 4096 * j) (by omega)
    rw [Nat.mul_div_cancel_left _ (by decide)] at this
    omega

/-- A range translates its addresses as `MapRange.Maps` says. -/
theorem MapRange.translate_iff (h : r.Legal) (hc : Canonical va) :
    (∃ e, r.Leaf (vpnOf va) e ∧ leafAt e (va &&& (PAGE_SIZE - 1)) = (pa, fl)) ↔ r.Maps va pa fl := by
  rcases h.half with h0 | hv
  · refine iff_of_false (fun ⟨e, ⟨j, hj, _⟩, _⟩ => by omega) fun ⟨_, _, _⟩ => by rw [h0] at *; omega
  rcases h.frames with h0 | ⟨hal, hlt⟩
  · refine iff_of_false (fun ⟨e, ⟨j, hj, _⟩, _⟩ => by omega) fun ⟨_, _, _⟩ => by rw [h0] at *; omega
  simp only [MapRange.Leaf, rangeLeaf_iff hv hc, MapRange.Maps]
  have hva : Aligned r.virtualStart := hv.aligned
  unfold Aligned at hva hal
  -- the frame and the offset in it are the offset in the range
  have key : r.virtualStart.toNat ≤ va.toNat → va.toNat < r.virtualStart.toNat + 4096 * r.pages →
      leafAt (pteFromPhysAddr (r.physicalStart + pageOff ((va.toNat - r.virtualStart.toNat) / 4096))
        (leafFlags r.flags)) (va &&& (PAGE_SIZE - 1)) =
      (r.physicalStart + (va - r.virtualStart), leafFlags r.flags) := fun hle hvlt => by
    have hfr := toNat_pageOff_div hlt (x := va.toNat - r.virtualStart.toNat) (by omega)
    rw [leafAt_pte h.flags.lt (by omega) (by unfold Aligned; omega)]
    refine Prod.ext (BitVec.eq_of_toNat_eq ?_) rfl
    simp only
    rw [BitVec.toNat_add, hfr, toNat_pageOffset, BitVec.toNat_add, BitVec.toNat_sub]
    have := va.isLt; have := r.virtualStart.isLt
    omega
  constructor
  · rintro ⟨e, ⟨hle, hvlt, rfl⟩, he⟩
    rw [key hle hvlt, Prod.mk.injEq] at he
    exact ⟨hle, hvlt, he.1.symm, he.2.symm⟩
  · rintro ⟨hle, hvlt, rfl, rfl⟩
    exact ⟨_, ⟨hle, hvlt, rfl⟩, key hle hvlt⟩

theorem kernelRanges_not_user (sym : KernelSymbols) (platform : PlatformInfo) :
    ∀ r ∈ kernelRanges sym platform, hasFlag (leafFlags r.flags) PTE_U = false := by
  simp only [kernelRanges, List.forall_mem_cons, MapRange.identity]
  decide

/-! ## The allocator's first frame -/

/-- A `paging_init` that returns true was given a first frame, so the allocator's
range starts past page 0. -/
theorem allocOk_of_pagingInit (hw : PlatformWithin (2 ^ 56) platform)
    (hp : physicalPageAllocatorInit platform = (true, b.allocator))
    (h : pagingInit sym platform b = some (true, b')) : AllocOk b.allocator := by
  obtain ⟨hcur, hend, hlt⟩ := physicalPageAllocatorInit_ok (by decide) hp hw.kernel hw.dtb hw.ram
  have hram := hw.ram
  refine ⟨?_, by omega, by omega⟩
  by_contra hpos
  have hz : b.allocator.current = 0 := BitVec.eq_of_toNat_eq (by
    rw [hcur] at hpos ⊢; change _ = 0; omega)
  have ha : (physicalAllocPage b.allocator).1 = 0 := by
    rw [physicalAllocPage, hz, show alignUp 0 4096 = 0 from rfl]
    split <;> rfl
  rw [pagingInit, pagingCreateRootTable, pagingCreateRootTableVia] at h
  simp only [ha, ite_true, Option.bind_eq_bind, Option.bind_some] at h
  cases h

/-! ## The ranges of `paging_init` -/

section Translate

variable (hlegal : ∀ r ∈ kernelRanges sym platform, r.Legal)

include hlegal

/-- The translations of tables whose ranges are legal. -/
theorem KernelTables.translate_iff (h : KernelTables sym platform b b' g) (hc : Canonical va) :
    sv39Translate b'.mem (satpRoot b'.satp) va = some (pa, fl) ↔
      ∃ r ∈ kernelRanges sym platform, r.Maps va pa fl := by
  have hleg : ∀ e, RvOs.space b'.mem g (vpnOf va) = some e → LegalLeaf e := fun e he => by
    obtain ⟨r, hr, hl⟩ := (h.space _ _).mp he
    exact (hlegal r hr).leaf hl
  rw [h.satp, satpRoot_makeSatpSv39 h.frame, sv39Translate_eq h.inv.tables hleg hc, AddrSpace.translate,
    Option.map_eq_some_iff]
  simp only [h.space]
  constructor
  · rintro ⟨e, ⟨r, hr, hl⟩, he⟩
    exact ⟨r, hr, (MapRange.translate_iff (hlegal r hr) hc).mp ⟨e, hl, he⟩⟩
  · rintro ⟨r, hr, hm⟩
    obtain ⟨e, hl, he⟩ := (MapRange.translate_iff (hlegal r hr) hc).mpr hm
    exact ⟨e, ⟨r, hr, hl⟩, he⟩

end Translate

theorem legalFlags_rw : LegalFlags (PTE_R ||| PTE_W) := ⟨by decide, by decide, by decide⟩
theorem legalFlags_r : LegalFlags PTE_R := ⟨by decide, by decide, by decide⟩
theorem legalFlags_rx : LegalFlags (PTE_R ||| PTE_X) := ⟨by decide, by decide, by decide⟩

/-- A range at itself, with aligned ends. -/
theorem identity_pages {start end_ : U64} (flags : U64) (hs : start.toNat % 4096 = 0) (he : end_.toNat % 4096 = 0)
    (hle : start.toNat ≤ end_.toNat) :
    4096 * (MapRange.identity start (end_ - start) flags).pages = end_.toNat - start.toNat := by
  rw [← MapRange.toNat_alignUp, MapRange.identity]
  simp only
  have := end_.isLt
  rw [toNat_alignUp (by rw [BitVec.toNat_sub]; omega), BitVec.toNat_sub]
  omega

theorem identity_legal {start end_ flags : U64} (hs : start.toNat % 4096 = 0) (he : end_.toNat % 4096 = 0)
    (hle : start.toNat ≤ end_.toNat) (hlt : end_.toNat ≤ 2 ^ 38) (hf : LegalFlags flags) :
    (MapRange.identity start (end_ - start) flags).Legal := by
  have hn := identity_pages flags hs he hle
  refine ⟨hf, .inr ⟨hs, ?_⟩, .inr ⟨hs, ?_⟩⟩ <;> rw [hn] <;> simp only [MapRange.identity] <;> omega

theorem identity_maps_iff {start end_ flags : U64} (hs : start.toNat % 4096 = 0) (he : end_.toNat % 4096 = 0)
    (hle : start.toNat ≤ end_.toNat) : (MapRange.identity start (end_ - start) flags).Maps va pa fl ↔
      identityMap start.toNat end_.toNat va pa ∧ fl = leafFlags flags := by
  have hn := identity_pages flags hs he hle
  rw [MapRange.Maps, identityMap, hn]
  simp only [MapRange.identity, and_assoc]
  refine and_congr_right fun h₁ => and_congr (by omega) ?_
  rw [show start + (va - start) = va by rw [BitVec.add_comm, BitVec.sub_add_cancel]]

theorem toNat_uartPage (platform : PlatformInfo) :
    (uartPage platform).toNat = platform.uartBase.toNat / 4096 * 4096 := toNat_pageDown _

theorem toNat_dtbPageBase (platform : PlatformInfo) :
    (dtbPageBase platform).toNat = platform.dtbAddr.toNat / 4096 * 4096 := toNat_pageDown _

variable (platform) in
theorem toNat_dtbPageEnd (hw : platform.dtbAddr.toNat + platform.dtbSize.toNat ≤ 2 ^ 56) :
    (dtbPageEnd platform).toNat = (platform.dtbAddr.toNat + platform.dtbSize.toNat + 4095) / 4096 * 4096 := by
  have ha : (platform.dtbAddr + platform.dtbSize).toNat = platform.dtbAddr.toNat + platform.dtbSize.toNat := by
    rw [BitVec.toNat_add]; omega
  rw [dtbPageEnd, toNat_alignUp (by omega), ha]

/-- The pages the device tree touches are those of its range. -/
theorem dtbMap_iff (hd : 0 < platform.dtbSize.toNat) : dtbMap platform va pa ↔
    identityMap (platform.dtbAddr.toNat / 4096 * 4096)
      ((platform.dtbAddr.toNat + platform.dtbSize.toNat + 4095) / 4096 * 4096) va pa := by
  rw [dtbMap, identityMap, ← and_assoc]
  refine and_congr_left fun _ => ⟨fun ⟨x, _, _, _⟩ => by omega, fun _ => ?_⟩
  refine ⟨max platform.dtbAddr.toNat (va.toNat / 4096 * 4096), ?_, ?_, ?_⟩ <;> omega

/-- The UART page as a range with an end. -/
theorem uart_range (flags : U64) : MapRange.identity (uartPage platform) PAGE_SIZE flags =
    .identity (uartPage platform) (uartPage platform + PAGE_SIZE - uartPage platform) flags := by
  rw [BitVec.add_comm, BitVec.add_sub_cancel]

/-- The direct map. -/
abbrev directRange (platform : PlatformInfo) : MapRange :=
  ⟨physToVirt platform.ramBase, platform.ramBase, platform.ramSize, PTE_R ||| PTE_W⟩

theorem toNat_physToVirt {p : U64} (hp : p.toNat < 2 ^ 38) : (physToVirt p).toNat = 2 ^ 64 - 2 ^ 38 + p.toNat := by
  rw [physToVirt, BitVec.toNat_add, show KERNEL_DIRECT_MAP_BASE.toNat = 2 ^ 64 - 2 ^ 38 from rfl]; omega

/-- The root pointer, when the frames are below 2³⁸. -/
theorem KernelTables.root_ne (h : KernelTables sym platform b b' g) (hend : b.allocator.end_.toNat ≤ 2 ^ 38) :
    physToVirt g ≠ 0 := by
  intro h0
  have hlt := (h.inv.tables.frame [] g (by simp) (tableAt_nil ..)).2
  have hle := h.inv.alloc.le
  have he := congrArg BitVec.toNat h0
  rw [h.end_] at hle
  rw [toNat_physToVirt (by omega)] at he
  change _ = 0 at he
  omega

section Direct

variable (hram : platform.ramBase.toNat + platform.ramSize.toNat ≤ 2 ^ 38)

include hram

theorem direct_pages : 4096 * (directRange platform).pages = (platform.ramSize.toNat + 4095) / 4096 * 4096 := by
  rw [← MapRange.toNat_alignUp, toNat_alignUp (by simp only; omega)]

variable (ha : (directRange platform).pages = 0 ∨ Aligned (physToVirt platform.ramBase) ∧ Aligned platform.ramBase)

include ha

theorem direct_legal : (directRange platform).Legal := by
  have hf := legalFlags_rw
  have hn := direct_pages hram
  rcases ha with h0 | ⟨hv, hp⟩
  · exact ⟨hf, .inl h0, .inl h0⟩
  by_cases h0 : (directRange platform).pages = 0
  · exact ⟨hf, .inl h0, .inl h0⟩
  have he := toNat_physToVirt (p := platform.ramBase) (by omega)
  have hal : platform.ramBase.toNat % 4096 = 0 := hp
  refine ⟨hf, .inr ⟨hv, .inr ?_⟩, .inr ⟨hp, ?_⟩⟩ <;> rw [hn] <;> simp only <;> omega

theorem direct_maps_iff : (directRange platform).Maps va pa fl ↔
    directMap platform va pa ∧ fl = leafFlags (PTE_R ||| PTE_W) := by
  have hn := direct_pages hram
  rw [MapRange.Maps, directMap, hn]
  simp only [and_assoc]
  rcases ha with h0 | ⟨-, hp⟩
  · rw [h0] at hn
    exact iff_of_false (fun ⟨_, _, _⟩ => by omega) fun ⟨_, _, _⟩ => by omega
  have hal : platform.ramBase.toNat % 4096 = 0 := hp
  have hb : KERNEL_DIRECT_MAP_BASE.toNat = 2 ^ 64 - 2 ^ 38 := rfl
  by_cases h0 : platform.ramSize.toNat = 0
  · exact iff_of_false (fun ⟨_, _, _⟩ => by omega) fun ⟨_, _, _⟩ => by omega
  have he := toNat_physToVirt (p := platform.ramBase) (by omega)
  have := va.isLt
  constructor
  · rintro ⟨h₁, h₂, rfl, rfl⟩
    have hpa : (platform.ramBase + (va - physToVirt platform.ramBase)).toNat = va.toNat - (2 ^ 64 - 2 ^ 38) := by
      rw [BitVec.toNat_add, BitVec.toNat_sub, he]; omega
    refine ⟨by omega, by omega, BitVec.eq_of_toNat_eq ?_, rfl⟩
    rw [toNat_physToVirt (by omega), hpa]; omega
  · rintro ⟨h₁, h₂, rfl, rfl⟩
    have hv := toNat_physToVirt (p := pa) (by omega)
    refine ⟨by omega, by omega, BitVec.eq_of_toNat_eq ?_, rfl⟩
    rw [BitVec.toNat_add, BitVec.toNat_sub, he, hv]; omega

end Direct

/-! ## The address space -/

/-- The linker's order of the symbols. -/
theorem LinkedKernel.le (h : LinkedKernel sym platform) :
    sym.textStart.toNat ≤ sym.textEnd.toNat ∧ sym.textEnd.toNat ≤ sym.rodataStart.toNat ∧
      sym.rodataStart.toNat ≤ sym.rodataEnd.toNat ∧ sym.rodataEnd.toNat ≤ sym.dataStart.toNat ∧
      sym.dataStart.toNat ≤ sym.dataEnd.toNat ∧ sym.dataEnd.toNat ≤ sym.bssStart.toNat ∧
      sym.bssStart.toNat ≤ sym.bssEnd.toNat := by
  simpa using h.ordered

theorem LinkedKernel.mod (h : LinkedKernel sym platform) :
    sym.textStart.toNat % 4096 = 0 ∧ sym.textEnd.toNat % 4096 = 0 ∧ sym.rodataStart.toNat % 4096 = 0 ∧
      sym.rodataEnd.toNat % 4096 = 0 ∧ sym.dataStart.toNat % 4096 = 0 ∧ sym.dataEnd.toNat % 4096 = 0 ∧
      sym.bssStart.toNat % 4096 = 0 ∧ sym.bssEnd.toNat % 4096 = 0 := by
  simpa using h.aligned

/-- `paging_init` makes the address space `KernelMap`, with no page for U-mode,
and switches to it. -/
theorem pagingInit_kernelMap (hk : LinkedKernel sym platform) (hw : PlatformWithin (2 ^ 38) platform)
    (hu : platform.uartBase.toNat / 4096 * 4096 + 4096 ≤ 2 ^ 38) (hd : 0 < platform.dtbSize.toNat)
    (hp : physicalPageAllocatorInit platform = (true, b.allocator))
    (h : pagingInit sym platform b = some (true, b')) :
    b'.satp >>> 60 = SATP_MODE_SV39 ∧ ∀ va, Canonical va → ∀ pa fl,
      (sv39Translate b'.mem (satpRoot b'.satp) va = some (pa, fl) ↔ KernelMap sym platform va pa fl) ∧
      (sv39Translate b'.mem (satpRoot b'.satp) va = some (pa, fl) → hasFlag fl PTE_U = false) := by
  obtain ⟨hkl, hdl, hrl⟩ := hw
  obtain ⟨l1, l2, l3, l4, l5, l6, l7⟩ := hk.le
  obtain ⟨m1, m2, m3, m4, m5, m6, m7, m8⟩ := hk.mod
  have hke := congrArg BitVec.toNat hk.kernelEnd
  have hul := toNat_uartPage platform
  have hue : (uartPage platform + PAGE_SIZE).toNat = platform.uartBase.toNat / 4096 * 4096 + 4096 := by
    rw [BitVec.toNat_add, hul, show PAGE_SIZE.toNat = 4096 from rfl]; omega
  have hdb := toNat_dtbPageBase platform
  have hde := toNat_dtbPageEnd platform (by omega)
  obtain ⟨g, hg⟩ := pagingInit_ok (allocOk_of_pagingInit ⟨by omega, by omega, by omega⟩ hp h) h
  have hdir := hg.aligned (directRange platform) (by simp [kernelRanges])
  have hlegal : ∀ r ∈ kernelRanges sym platform, r.Legal := by
    simp only [kernelRanges, List.forall_mem_cons, List.not_mem_nil, false_imp_iff, implies_true, and_true,
      uart_range]
    exact ⟨identity_legal m1 m2 l1 (by omega) legalFlags_rx, identity_legal m3 m4 l3 (by omega) legalFlags_r,
      identity_legal m5 m6 l5 (by omega) legalFlags_rw, identity_legal m7 m8 l7 (by omega) legalFlags_rw,
      identity_legal (by omega) (by omega) (by omega) (by omega) legalFlags_rw,
      identity_legal (by omega) (by omega) (by omega) (by omega) legalFlags_rw, direct_legal hrl hdir⟩
  have hiff : ∀ va, Canonical va → ∀ pa fl,
      (sv39Translate b'.mem (satpRoot b'.satp) va = some (pa, fl) ↔ KernelMap sym platform va pa fl) := by
    intro va hc pa fl
    rw [hg.translate_iff hlegal hc]
    simp only [kernelRanges, List.mem_cons, List.not_mem_nil, or_false, exists_eq_or_imp, exists_eq_left,
      uart_range]
    rw [identity_maps_iff m1 m2 l1, identity_maps_iff m3 m4 l3, identity_maps_iff m5 m6 l5,
      identity_maps_iff m7 m8 l7, identity_maps_iff (by omega) (by omega) (by omega),
      identity_maps_iff (by omega) (by omega) (by omega), direct_maps_iff hrl hdir, hul, hue, hdb, hde, ← dtbMap_iff hd]
    rfl
  refine ⟨?_, fun va hc pa fl => ⟨hiff va hc pa fl, fun ht => ?_⟩⟩
  · rw [hg.satp]; exact makeSatpSv39_mode hg.frame
  · rcases (hiff va hc pa fl).mp ht with ⟨-, rfl⟩ | ⟨-, rfl⟩ | ⟨-, rfl⟩ | ⟨-, rfl⟩ | ⟨-, rfl⟩ | ⟨-, rfl⟩ |
      ⟨-, rfl⟩ <;> decide

theorem pagingInit_kernelMap_sample : ∃ b', pagingInit sampleSymbols samplePlatform (sampleBoot fun _ => 0) =
      some (true, b') ∧
    b'.satp >>> 60 = SATP_MODE_SV39 ∧ ∀ va, Canonical va → ∀ pa fl,
      (sv39Translate b'.mem (satpRoot b'.satp) va = some (pa, fl) ↔ KernelMap sampleSymbols samplePlatform va pa fl) ∧
      (sv39Translate b'.mem (satpRoot b'.satp) va = some (pa, fl) → hasFlag fl PTE_U = false) := by
  obtain ⟨-, b', -, -, h, -⟩ := sample_pagingInit fun _ => 0
  exact ⟨b', h, pagingInit_kernelMap sample_linked (sample_within (by decide)) (by decide) (by decide)
    (sample_allocator _) h⟩

end RvOs
