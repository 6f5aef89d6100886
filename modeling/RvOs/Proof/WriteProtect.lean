import RvOs.Proof.KernelSpace

/-!
# Writable aliases of the kernel's code

After `paging_init` a frame of `.text` or `.rodata` is writable through its
address in the direct map, and through no other (`pagingInit_writable`): its
own address was mapped first, so no later range has that page.
-/

namespace RvOs

variable {sym : KernelSymbols} {platform : PlatformInfo} {b b' : BootState} {g va pa fl : U64} {r r' : MapRange}

/-- Page `j` of a range translates `va` to `pa`, with the flags `fl`. -/
structure MapRange.Reaches (r : MapRange) (j : Nat) (va pa fl : U64) : Prop where
  lt : j < r.pages
  aligned : Aligned r.virtualStart ∧ Aligned r.physicalStart
  page : vpnOf va = vpnOf (r.virtualStart + pageOff j)
  frame : pa = r.physicalStart + pageOff j + (va &&& (PAGE_SIZE - 1))
  flags : fl = leafFlags r.flags

/-- What Sv39 translates is in one of the ranges. -/
theorem KernelTables.reaches (h : KernelTables sym platform b b' g)
    (ht : sv39Translate b'.mem (satpRoot b'.satp) va = some (pa, fl)) :
    ∃ r ∈ kernelRanges sym platform, ∃ j, r.Reaches j va pa fl := by
  rw [h.satp, satpRoot_makeSatpSv39 h.frame] at ht
  obtain ⟨-, e, he, hres, hle⟩ := sv39Translate_some h.inv.tables ht
  obtain ⟨r, hr, j, hj, hv, rfl⟩ := (h.space _ _).mp he
  have ha := (h.aligned r hr).resolve_left (by omega)
  have hf := leafFlags_lt (kernelRanges_flagsOk sym platform r hr).1
  -- bits 54 and up of the entry are clear, so the frame is below 2⁵⁶
  have hlt : (r.physicalStart + pageOff j).toNat < 2 ^ 56 := by
    simp only [pteReserved, Bool.or_eq_false_iff, bne_eq_false_iff_eq] at hres
    have h54 := congrArg BitVec.toNat hres.2
    rw [BitVec.toNat_ushiftRight, toNat_pte hf, Nat.shiftRight_eq_div_pow] at h54
    have := (r.physicalStart + pageOff j).isLt
    change _ = 0 at h54
    omega
  rw [leafAt_pte (kernelRanges_flagsOk sym platform r hr).1 hlt ((aligned_add_pageOff _ j).mpr ha.2),
    Prod.mk.injEq] at hle
  exact ⟨r, hr, j, hj, ha, hv, hle.1.symm, hle.2.symm⟩

/-- In a range at itself the page of `va` is that of `pa`. -/
theorem MapRange.Reaches.identity {start size flags : U64} {j : Nat}
    (h : (MapRange.identity start size flags).Reaches j va pa fl) : vpnOf va = vpnOf pa := by
  rw [h.frame, vpnOf_add_off ((aligned_add_pageOff _ j).mpr h.aligned.2) (toNat_pageOffset_lt va)]
  exact h.page

theorem physToVirt_add (p x : U64) : physToVirt (p + x) = physToVirt p + x := by
  rw [physToVirt, physToVirt]
  ac_rfl

/-- In the direct map it is that of `phys_to_virt(pa)`. -/
theorem MapRange.Reaches.direct {j : Nat} (h : (directRange platform).Reaches j va pa fl) :
    vpnOf va = vpnOf (physToVirt pa) := by
  have e : physToVirt pa = physToVirt platform.ramBase + pageOff j + (va &&& (PAGE_SIZE - 1)) := by
    rw [h.frame, physToVirt_add, physToVirt_add]
  rw [e, vpnOf_add_off ((aligned_add_pageOff _ j).mpr h.aligned.1) (toNat_pageOffset_lt va)]
  exact h.page

/-- The page of an address in a range is one of its leaves. -/
theorem MapRange.leaf_of_mem (ha : Aligned r.virtualStart) {x : U64}
    (hx : r.virtualStart.toNat ≤ x.toNat ∧ x.toNat < r.virtualStart.toNat + 4096 * r.pages) :
    r.Leaf (vpnOf x) (pteFromPhysAddr (r.physicalStart + pageOff ((x.toNat - r.virtualStart.toNat) / 4096))
      (leafFlags r.flags)) := by
  refine ⟨(x.toNat - r.virtualStart.toNat) / 4096, by omega, BitVec.eq_of_toNat_eq ?_, rfl⟩
  have := x.isLt
  unfold Aligned at ha
  rw [vpnOf_toNat, vpnOf_toNat, BitVec.toNat_add, toNat_pageOff (by omega)]
  omega

/-- The pages of a section are leaves of its range. -/
theorem section_leaf {start end_ : U64} (flags : U64) (hs : start.toNat % 4096 = 0) (he : end_.toNat % 4096 = 0)
    {x : U64} (hx : start.toNat ≤ x.toNat ∧ x.toNat < end_.toNat) :
    ∃ e, (MapRange.identity start (end_ - start) flags).Leaf (vpnOf x) e := by
  have hn := identity_pages flags hs he (by omega)
  exact ⟨_, MapRange.leaf_of_mem (r := .identity start (end_ - start) flags) hs
    (by rw [hn]; simp only [MapRange.identity]; omega)⟩

/-- The frames of a section are those between its symbols. -/
theorem section_frames {start end_ flags : U64} (hs : start.toNat % 4096 = 0) (he : end_.toNat % 4096 = 0)
    (hle : start.toNat ≤ end_.toNat) {j : Nat}
    (h : (MapRange.identity start (end_ - start) flags).Reaches j va pa fl) :
    start.toNat ≤ pa.toNat ∧ pa.toNat < end_.toNat := by
  have hn := identity_pages flags hs he hle
  have hj := h.lt
  have ho := toNat_pageOffset_lt va
  have := end_.isLt
  have hf : pa.toNat = start.toNat + 4096 * j + (va &&& (PAGE_SIZE - 1)).toNat := by
    rw [h.frame, BitVec.toNat_add, BitVec.toNat_add, toNat_pageOff (by omega)]
    simp only [MapRange.identity]
    omega
  omega

theorem rx_not_w : ¬ hasFlag (leafFlags (PTE_R ||| PTE_X)) PTE_W = true := by decide
theorem r_not_w : ¬ hasFlag (leafFlags PTE_R) PTE_W = true := by decide
theorem r_not_x : ¬ hasFlag (leafFlags PTE_R) PTE_X = true := by decide
theorem rw_x : hasFlag (leafFlags (PTE_R ||| PTE_W)) PTE_X = false := by decide
theorem rw_not_x : ¬ hasFlag (leafFlags (PTE_R ||| PTE_W)) PTE_X = true := by decide

/-- A page of a range is translated. -/
theorem KernelTables.page (h : KernelTables sym platform b b' g) (hr : r ∈ kernelRanges sym platform)
    (hf : LegalFlags r.flags) {j : Nat} (hj : j < r.pages) (hlt : (r.physicalStart + pageOff j).toNat < 2 ^ 56)
    {off : U64} (ho : off.toNat < 4096) (hc : Canonical (r.virtualStart + pageOff j + off)) :
    sv39Translate b'.mem (satpRoot b'.satp) (r.virtualStart + pageOff j + off) =
      some (r.physicalStart + pageOff j + off, leafFlags r.flags) := by
  obtain ⟨hv, ha⟩ := (h.aligned r hr).resolve_left (by omega)
  have hfa : Aligned (r.physicalStart + pageOff j) := (aligned_add_pageOff _ j).mpr ha
  have hva : Aligned (r.virtualStart + pageOff j) := (aligned_add_pageOff _ j).mpr hv
  have hpage : vpnOf (r.virtualStart + pageOff j + off) = vpnOf (r.virtualStart + pageOff j) := vpnOf_add_off hva ho
  have hsp := (h.space _ _).mpr ⟨r, hr, j, hj, hpage, rfl⟩
  rw [h.satp, satpRoot_makeSatpSv39 h.frame, sv39Translate_eq h.inv.tables (fun e he => by
    rw [hsp] at he; cases he; exact legalLeaf_pte hlt hf) hc, AddrSpace.translate, hsp,
    Option.map_some, leafAt_pte hf.lt hlt hfa, pageOffset_add_off hva ho]

variable (pa) in
/-- The direct map reaches every byte of RAM whose address there is canonical. -/
theorem KernelTables.direct (h : KernelTables sym platform b b' g)
    (hram : platform.ramBase.toNat + platform.ramSize.toNat ≤ 2 ^ 56)
    (hx : platform.ramBase.toNat ≤ pa.toNat ∧ pa.toNat < platform.ramBase.toNat + platform.ramSize.toNat)
    (hc : Canonical (physToVirt pa)) : sv39Translate b'.mem (satpRoot b'.satp) (physToVirt pa) =
      some (pa, leafFlags (PTE_R ||| PTE_W)) := by
  have hn : 4096 * (directRange platform).pages = (platform.ramSize.toNat + 4095) / 4096 * 4096 := by
    rw [← MapRange.toNat_alignUp, toNat_alignUp (by simp only; omega)]
  have hmem : directRange platform ∈ kernelRanges sym platform := by simp [kernelRanges]
  obtain ⟨-, ha⟩ := (h.aligned _ hmem).resolve_left (by omega)
  have hal : platform.ramBase.toNat % 4096 = 0 := ha
  generalize hj : (pa.toNat - platform.ramBase.toNat) / 4096 = j
  have hfr : (platform.ramBase + pageOff j).toNat = platform.ramBase.toNat + 4096 * j := by
    rw [BitVec.toNat_add, toNat_pageOff (by omega)]; omega
  -- the address as page and offset
  have hoff : (pa &&& (PAGE_SIZE - 1)).toNat = pa.toNat % 4096 := toNat_pageOffset pa
  have hpa : pa = platform.ramBase + pageOff j + (pa &&& (PAGE_SIZE - 1)) := BitVec.eq_of_toNat_eq (by
    rw [BitVec.toNat_add, hfr, hoff]; omega)
  have hpv : physToVirt pa = physToVirt platform.ramBase + pageOff j + (pa &&& (PAGE_SIZE - 1)) := by
    conv_lhs => rw [hpa]
    rw [physToVirt_add, physToVirt_add]
  rw [hpv] at hc ⊢
  have ht := h.page hmem legalFlags_rw (by omega) (by show (platform.ramBase + pageOff j).toNat < _; omega)
    (toNat_pageOffset_lt pa) hc
  rw [ht]
  show some (platform.ramBase + pageOff j + (pa &&& (PAGE_SIZE - 1)), _) = _
  rw [← hpa]

/-- A range at itself that has no page of the sections of code does not reach them. -/
theorem MapRange.Reaches.not_code (hk : LinkedKernel sym platform) {start size flags : U64} {j : Nat}
    (h : (MapRange.identity start size flags).Reaches j va pa fl)
    (ht : ∀ v e e', (MapRange.identity sym.textStart (sym.textEnd - sym.textStart) (PTE_R ||| PTE_X)).Leaf v e →
      ¬ (MapRange.identity start size flags).Leaf v e')
    (hro : ∀ v e e', (MapRange.identity sym.rodataStart (sym.rodataEnd - sym.rodataStart) PTE_R).Leaf v e →
      ¬ (MapRange.identity start size flags).Leaf v e') : ¬ InCode sym pa := by
  obtain ⟨m1, m2, m3, m4, -⟩ := hk.mod
  have hl : (MapRange.identity start size flags).Leaf (vpnOf pa)
      (pteFromPhysAddr (start + pageOff j) (leafFlags flags)) :=
    ⟨j, h.lt, h.identity ▸ h.page, rfl⟩
  rintro (hc | hc)
  · obtain ⟨e, he⟩ := section_leaf (PTE_R ||| PTE_X) m1 m2 hc
    exact ht _ _ _ he hl
  · obtain ⟨e, he⟩ := section_leaf PTE_R m3 m4 hc
    exact hro _ _ _ he hl

/-- A frame of `.text` or `.rodata` is writable exactly through the direct map,
no address is both writable and executable, and what is executable is `.text`,
at its own page. -/
theorem pagingInit_writable (hk : LinkedKernel sym platform) (hw : PlatformWithin (2 ^ 56) platform)
    (hin : platform.ramBase.toNat ≤ platform.kernelStart.toNat ∧
      platform.kernelEnd.toNat ≤ platform.ramBase.toNat + platform.ramSize.toNat)
    (hp : physicalPageAllocatorInit platform = (true, b.allocator))
    (h : pagingInit sym platform b = some (true, b')) :
    (∀ va pa fl, sv39Translate b'.mem (satpRoot b'.satp) va = some (pa, fl) →
      (InCode sym pa → hasFlag fl PTE_W = true → vpnOf va = vpnOf (physToVirt pa)) ∧
      (hasFlag fl PTE_W = true → hasFlag fl PTE_X = false) ∧
      (hasFlag fl PTE_X = true →
        sym.textStart.toNat ≤ pa.toNat ∧ pa.toNat < sym.textEnd.toNat ∧ vpnOf va = vpnOf pa)) ∧
    ∀ pa, InCode sym pa → Canonical (physToVirt pa) → sv39Translate b'.mem (satpRoot b'.satp) (physToVirt pa) =
      some (pa, leafFlags (PTE_R ||| PTE_W)) := by
  obtain ⟨l1, l2, l3, l4, l5, l6, l7⟩ := hk.le
  obtain ⟨m1, m2, m3, m4, m5, m6, m7, m8⟩ := hk.mod
  have hks := congrArg BitVec.toNat hk.kernelStart
  have hke := congrArg BitVec.toNat hk.kernelEnd
  have hram := hw.ram
  obtain ⟨g, hg⟩ := pagingInit_ok (allocOk_of_pagingInit hw hp h) h
  have hap := hg.apart
  simp only [kernelRanges, List.pairwise_cons, List.forall_mem_cons, List.not_mem_nil, false_imp_iff,
    implies_true, and_true] at hap
  obtain ⟨⟨-, t3, t4, t5, t6, -⟩, ⟨r3, r4, r5, r6, -⟩, -⟩ := hap
  refine ⟨fun va pa fl ht => ?_, fun pa hc hcan => ?_⟩
  · obtain ⟨r, hr, j, hj⟩ := hg.reaches ht
    simp only [kernelRanges, List.mem_cons, List.not_mem_nil, or_false] at hr
    rcases hr with rfl | rfl | rfl | rfl | rfl | rfl | rfl <;> rw [hj.flags]
    · refine ⟨fun _ hW => absurd hW rx_not_w, fun hW => absurd hW rx_not_w, fun _ => ?_⟩
      obtain ⟨h₁, h₂⟩ := section_frames m1 m2 l1 hj
      exact ⟨h₁, h₂, hj.identity⟩
    · exact ⟨fun _ hW => absurd hW r_not_w, fun hW => absurd hW r_not_w, fun hX => absurd hX r_not_x⟩
    · exact ⟨fun hc _ => (hj.not_code hk t3 r3 hc).elim, fun _ => rw_x, fun hX => absurd hX rw_not_x⟩
    · exact ⟨fun hc _ => (hj.not_code hk t4 r4 hc).elim, fun _ => rw_x, fun hX => absurd hX rw_not_x⟩
    · exact ⟨fun hc _ => (hj.not_code hk t5 r5 hc).elim, fun _ => rw_x, fun hX => absurd hX rw_not_x⟩
    · exact ⟨fun hc _ => (hj.not_code hk t6 r6 hc).elim, fun _ => rw_x, fun hX => absurd hX rw_not_x⟩
    · exact ⟨fun _ _ => hj.direct, fun _ => rw_x, fun hX => absurd hX rw_not_x⟩
  · have hinRam : platform.ramBase.toNat ≤ pa.toNat ∧
        pa.toNat < platform.ramBase.toNat + platform.ramSize.toNat := by
      rcases hc with hc | hc <;> omega
    exact hg.direct pa hram hinRam hcan

theorem pagingInit_writable_sample : ∃ b', pagingInit sampleSymbols samplePlatform (sampleBoot fun _ => 0) =
      some (true, b') ∧
    (∀ va pa fl, sv39Translate b'.mem (satpRoot b'.satp) va = some (pa, fl) →
      (InCode sampleSymbols pa → hasFlag fl PTE_W = true → vpnOf va = vpnOf (physToVirt pa)) ∧
      (hasFlag fl PTE_W = true → hasFlag fl PTE_X = false) ∧
      (hasFlag fl PTE_X = true →
        (0x80000000 : U64).toNat ≤ pa.toNat ∧ pa.toNat < (0x80001000 : U64).toNat ∧ vpnOf va = vpnOf pa)) ∧
    ∀ pa, InCode sampleSymbols pa → Canonical (physToVirt pa) →
      sv39Translate b'.mem (satpRoot b'.satp) (physToVirt pa) = some (pa, leafFlags (PTE_R ||| PTE_W)) := by
  obtain ⟨-, b', -, -, h, -⟩ := sample_pagingInit fun _ => 0
  exact ⟨b', h, pagingInit_writable sample_linked (sample_within (by decide)) (by decide) (sample_allocator _) h⟩

/-- The first frame of `.text` is writable at its address in the direct map, and
executable at its own. -/
theorem text_writable_alias : ∃ b', pagingInit sampleSymbols samplePlatform (sampleBoot fun _ => 0) =
      some (true, b') ∧
    sv39Translate b'.mem (satpRoot b'.satp) 0xFFFFFFC080000000 =
      some (sampleSymbols.textStart, PTE_R ||| PTE_W ||| PTE_V ||| PTE_A ||| PTE_D) ∧
    sv39Translate b'.mem (satpRoot b'.satp) sampleSymbols.textStart =
      some (sampleSymbols.textStart, PTE_R ||| PTE_X ||| PTE_V ||| PTE_A ||| PTE_D) := by
  obtain ⟨-, b', -, -, h, -⟩ := sample_pagingInit fun _ => 0
  have hw := sample_within (show _ ≤ 2 ^ 56 by decide)
  obtain ⟨g, hg⟩ := pagingInit_ok (allocOk_of_pagingInit hw (sample_allocator _) h) h
  refine ⟨b', h, hg.direct sampleSymbols.textStart hw.ram (by decide) (by decide), ?_⟩
  have hr : MapRange.identity sampleSymbols.textStart (sampleSymbols.textEnd - sampleSymbols.textStart)
      (PTE_R ||| PTE_X) ∈ kernelRanges sampleSymbols samplePlatform := by simp [kernelRanges]
  have hs := (hg.space (vpnOf sampleSymbols.textStart) _).mpr ⟨_, hr, 0, by decide, rfl, rfl⟩
  rw [hg.satp, satpRoot_makeSatpSv39 hg.frame, sv39Translate_eq hg.inv.tables (fun e he => by
    rw [hs] at he; cases he; exact legalLeaf_pte (by decide) legalFlags_rx) (by decide), AddrSpace.translate, hs]
  rfl

end RvOs
