import RvOs.Proof.RegionCorrect
import RvOs.Proof.UserLayout
import RvOs.Spec.UserRegions

/-!
# Mapping the regions of a layout

Regions whose pages are free are mapped with three frames for each page
(`mapRegions_free`, over the regions, from `mapRegion_free` over the pages of
one). Below the kernel's root a page is free exactly when no range of
`paging_init` has it (`KernelTables.kernelPage_iff`), so the regions of an
accepted layout can be mapped exactly when they are clear of these
(`userRegions_mappable_iff`).
-/

namespace RvOs

variable {g : Addr} {r : MemoryRegion} {rs : List MemoryRegion} {s s' s₁ : KState} {n k : Nat} {ps : List UserPage}

/-! ## Free pages -/

/-- A free page, with frames for it and its tables. -/
theorem mapRegionPage_free (h : KInv g s) (hr : physToVirt g ≠ 0) (hf : FlagsOk r.flags) {offset : U64}
    (ha : Aligned (r.start + offset)) (hfree : space s.mem g (vpnOf (r.start + offset)) = none)
    (hsup : supplies (3 + k) s.allocator) :
    ∃ s' f, mapRegionPage .direct (physToVirt g) r offset s = some (true, s') ∧
      Loaded g s [⟨vpnOf (r.start + offset), f, r.flags⟩] s' ∧ supplies k s'.allocator := by
  obtain ⟨b, s', he, ht, hfail⟩ := mapRegionPage_ok h hr hf ha
  cases b with
  | true =>
    obtain ⟨⟨f, hl⟩, -, n, hn, hal⟩ := ht rfl
    exact ⟨s', f, he, hl, hal ▸ supplies_allocMany hn hsup⟩
  | false =>
    rcases (hfail rfl).2 with hn | hn
    · exact absurd hfree hn
    · exact absurd (supplies_le (Nat.le_add_right ..) hsup) hn

/-- The pages of a range in one half are different. -/
theorem InHalf.page_inj {va : U64} (h : InHalf va n) {i j : Nat} (hi : i < n) (hj : j < n)
    (e : vpnOf (va + pageOff i) = vpnOf (va + pageOff j)) : i = j := by
  have he := vpnOf_inj (h.canonical (i := 4096 * i) (by omega)) (h.canonical (i := 4096 * j) (by omega)) e
  have hal := h.aligned
  unfold Aligned at hal
  rw [h.toNat_add (by omega), h.toNat_add (by omega)] at he
  omega

/-- A page stays free while others are mapped. -/
theorem Loaded.space_none (h : Loaded g s ps s') {v : Vpn} (hv : RvOs.space s.mem g v = none)
    (hne : ∀ u ∈ ps, u.page ≠ v) : RvOs.space s'.mem g v = none := by
  rw [Option.eq_none_iff_forall_ne_some]
  intro e he
  rcases (h.space v e).mp he with hs | ⟨u, hu, hpage, -⟩
  · rw [hv] at hs
    cases hs
  · exact hne u hu hpage.symm

/-- The pages of a region are free in `s`. -/
def FreePages (g : Addr) (s : KState) (r : MemoryRegion) : Prop :=
  ∀ j < r.size.toNat / 4096, space s.mem g (vpnOf (r.start + pageOff j)) = none

/-- A region of whole pages in the lower half. -/
structure LowRegion (r : MemoryRegion) : Prop where
  flags : FlagsOk r.flags
  start : Aligned r.start
  size : Aligned r.size
  end_ : r.end_ ≤ 2 ^ 38

theorem LowRegion.inHalf (h : LowRegion r) : InHalf r.start (r.size.toNat / 4096) := by
  have hsz := h.size
  have hend := h.end_
  unfold Aligned at hsz
  unfold MemoryRegion.end_ at hend
  exact ⟨h.start, .inl (by omega)⟩

theorem mapRegion_free (h : KInv g s) (hr : physToVirt g ≠ 0) (hlow : LowRegion r) (hfree : FreePages g s r)
    (hsup : supplies (3 * (r.size.toNat / 4096) + k) s.allocator) :
    ∃ s' ps, mapRegion .direct (physToVirt g) r s = some (true, s') ∧ Loaded g s ps s' ∧
      RegionPages r (r.size.toNat / 4096) ps ∧ supplies k s'.allocator := by
  have hsz := hlow.size
  rw [mapRegion_eq hr hlow.start hsz]
  unfold Aligned at hsz
  generalize hn : r.size.toNat / 4096 = n at hsup
  have hsize : r.size.toNat = 4096 * n := by omega
  have hhalf := hn ▸ hlow.inHalf
  have hstep : ∀ j < n, ∀ s₁,
      (∃ ps, Loaded g s ps s₁ ∧ RegionPages r j ps ∧ supplies (3 * (n - j) + k) s₁.allocator) →
      ∃ b s', mapRegionPage .direct (physToVirt g) r (pageOff j) s₁ = some (b, s') ∧
        (b = true → ∃ ps, Loaded g s ps s' ∧ RegionPages r (j + 1) ps ∧ supplies (3 * (n - (j + 1)) + k) s'.allocator) ∧
        (b = false → False) := by
    rintro j hj s₁ ⟨ps, hl, hp, hsup⟩
    have hnone : RvOs.space s₁.mem g (vpnOf (r.start + pageOff j)) = none := by
      refine hl.space_none (hfree j (hn ▸ hj)) fun u hu e => ?_
      obtain ⟨i, hi, hpage⟩ := hp.page hu
      have := hhalf.page_inj (by omega) hj (hpage.symm.trans e)
      omega
    rw [show 3 * (n - j) + k = 3 + (3 * (n - (j + 1)) + k) by omega] at hsup
    obtain ⟨s', f, he, hl', hsup'⟩ := mapRegionPage_free hl.inv hr hlow.flags
      ((aligned_add_pageOff _ j).mpr hlow.start) hnone hsup
    exact ⟨true, s', he, fun _ => ⟨_, hl.append hl', hp.snoc f, hsup'⟩, nofun⟩
  obtain ⟨b, s', he, ht, hfail⟩ := pageLoop_zero (mapRegionPage .direct (physToVirt g) r)
    (fun j s₁ => ∃ ps, Loaded g s ps s₁ ∧ RegionPages r j ps ∧ supplies (3 * (n - j) + k) s₁.allocator)
    (fun _ _ => False) hsize hstep ⟨[], .nil h, ⟨rfl, by simp⟩, hsup⟩
  cases b with
  | true =>
    obtain ⟨ps, hl, hp, hsup'⟩ := ht rfl
    rw [Nat.sub_self, Nat.mul_zero, Nat.zero_add] at hsup'
    exact ⟨s', ps, he, hl, hp, hsup'⟩
  | false =>
    obtain ⟨_, _, hF⟩ := hfail rfl
    exact hF.elim

/-- The pages of a later region stay free. -/
theorem FreePages.loaded {r' : MemoryRegion} (h : FreePages g s r') (hlow : LowRegion r) (hlow' : LowRegion r')
    (hb : r.Before r') (hl : Loaded g s ps s') (hp : RegionPages r (r.size.toNat / 4096) ps) : FreePages g s' r' := by
  intro j hj
  refine hl.space_none (h j hj) fun u hu e => ?_
  obtain ⟨i, hi, hpage⟩ := hp.page hu
  have hv := hlow.inHalf
  have hv' := hlow'.inHalf
  have he := vpnOf_inj (hv.canonical (i := 4096 * i) (by omega)) (hv'.canonical (i := 4096 * j) (by omega))
    (hpage.symm.trans e)
  have hal := hlow.start
  have hal' := hlow'.start
  unfold Aligned at hal hal'
  unfold MemoryRegion.Before MemoryRegion.end_ at hb
  rw [hv.toNat_add (by omega), hv'.toNat_add (by omega)] at he
  omega

/-- Regions with free pages, in the order of their addresses. -/
theorem mapRegions_free (hr : physToVirt g ≠ 0) (h : KInv g s) (hlow : ∀ r ∈ rs, LowRegion r)
    (hb : rs.Pairwise MemoryRegion.Before) (hfree : ∀ r ∈ rs, FreePages g s r)
    (hsup : supplies (3 * regionPages rs) s.allocator) :
    ∃ s', mapRegions .direct (physToVirt g) rs s = some (true, s') := by
  induction rs generalizing s with
  | nil => exact ⟨s, rfl⟩
  | cons r rs ih =>
    obtain ⟨hlow₁, hlow⟩ := List.forall_mem_cons.mp hlow
    obtain ⟨hb₁, hb⟩ := List.pairwise_cons.mp hb
    obtain ⟨hfree₁, hfree⟩ := List.forall_mem_cons.mp hfree
    rw [regionPages, List.map_cons, List.sum_cons, Nat.mul_add] at hsup
    obtain ⟨s₁, ps, he, hl, hp, hsup₁⟩ := mapRegion_free h hr hlow₁ hfree₁ hsup
    have hfree' : ∀ r' ∈ rs, FreePages g s₁ r' := fun r' hr' =>
      (hfree r' hr').loaded hlow₁ (hlow r' hr') (hb₁ r' hr') hl hp
    obtain ⟨s', he'⟩ := ih hl.inv hlow hb hfree' hsup₁
    refine ⟨s', ?_⟩
    rw [mapRegions, he]
    exact he'

/-! ## The kernel's pages -/

section Kernel

variable {sym : KernelSymbols} {platform : PlatformInfo} {b b' : BootState}

/-- The pages mapped below the kernel's root are those of its ranges. -/
theorem KernelTables.kernelPage_iff (h : KernelTables sym platform b b' g) (v : Vpn) :
    KernelPage sym platform v ↔ RvOs.space b'.mem g v ≠ none := by
  rw [Option.ne_none_iff_exists']
  constructor
  · rintro ⟨r, hr, off, hoff, rfl⟩
    have hn := r.toNat_alignUp
    rw [BitVec.lt_def, hn] at hoff
    have ha := ((h.aligned r hr).resolve_left (by omega)).1
    refine ⟨_, (h.space _ _).mpr ⟨r, hr, off.toNat / 4096, by omega, ?_, rfl⟩⟩
    rw [← vpnOf_byte ha, BitVec.ofNat_toNat, BitVec.setWidth_eq]
  · rintro ⟨e, he⟩
    obtain ⟨r, hr, j, hj, hv, -⟩ := (h.space v e).mp he
    have hn := r.toNat_alignUp
    have hlt := (alignUp r.size PAGE_SIZE).isLt
    refine ⟨r, hr, pageOff j, ?_, hv⟩
    rw [BitVec.lt_def, hn, toNat_pageOff (by omega)]
    omega

theorem pagingQuery_none_iff (hr : physToVirt g ≠ 0) (m : Mem) (a : U64) :
    pagingQuery .direct (physToVirt g) a m = some none ↔ space m g (vpnOf a) = none := by
  rw [pagingQuery_physToVirt hr, AddrSpace.translate, Option.some.injEq, Option.map_eq_none_iff]

/-- Clear page by page. -/
theorem regionsClear_iff (hlow : ∀ r ∈ rs, LowRegion r) : RegionsClear sym platform rs ↔
    ∀ r ∈ rs, ∀ j < r.size.toNat / 4096, ¬ KernelPage sym platform (vpnOf (r.start + pageOff j)) := by
  constructor
  · intro h r hr j hj
    have hlt := r.size.isLt
    refine h r hr _ ?_
    rw [BitVec.lt_def, toNat_pageOff (by omega)]
    omega
  · intro h r hr off hoff
    have hsz := (hlow r hr).size
    unfold Aligned at hsz
    rw [BitVec.lt_def] at hoff
    have hp := vpnOf_byte (hlow r hr).start off.toNat
    rw [BitVec.ofNat_toNat, BitVec.setWidth_eq] at hp
    rw [hp]
    exact h r hr _ (by omega)

/-- Regions can be mapped below the kernel's root exactly when they are clear of its pages. -/
theorem KernelTables.mappable_iff (h : KernelTables sym platform b b' g) (hr : physToVirt g ≠ 0)
    (hlow : ∀ r ∈ rs, LowRegion r) (hb : rs.Pairwise MemoryRegion.Before) :
    RegionsMappable b'.root rs b'.toKState ↔ RegionsClear sym platform rs := by
  have hnone : ∀ a, pagingQuery .direct b'.root a b'.mem = some none ↔
      ¬ KernelPage sym platform (vpnOf a) := fun a => by
    rw [h.root, pagingQuery_none_iff hr, h.kernelPage_iff, not_not]
  constructor
  · intro hm r hr off hoff
    exact (hnone _).mp (hm.unmapped r hr off hoff)
  · intro hc
    have hfree : ∀ r ∈ rs, FreePages g b'.toKState r := fun r hr j hj =>
      not_not.mp ((h.kernelPage_iff _).not.mp ((regionsClear_iff hlow).mp hc r hr j hj))
    refine ⟨fun r hr off hoff => (hnone _).mpr (hc r hr off hoff), fun hsup => ?_⟩
    rw [h.root]
    exact mapRegions_free hr h.inv hlow hb hfree hsup

theorem forall₂_mem {α β : Type*} {R : α → β → Prop} {xs : List α} {ys : List β} (h : List.Forall₂ R xs ys) {x : α}
    (hx : x ∈ xs) : ∃ y ∈ ys, R x y := by
  induction h with
  | nil => cases hx
  | cons hxy _ ih =>
    rcases List.mem_cons.mp hx with rfl | hx
    · exact ⟨_, List.mem_cons_self, hxy⟩
    · obtain ⟨y, hy, hr⟩ := ih hx
      exact ⟨y, List.mem_cons_of_mem _ hy, hr⟩

/-- On a collision `map_region` returns false for one of the regions. -/
theorem KernelTables.clear_of_mapped (h : KernelTables sym platform b b' g) (hr : physToVirt g ≠ 0)
    (hlow : ∀ r ∈ rs, LowRegion r) (hm : mapRegions .direct b'.root rs b'.toKState = some (true, s')) :
    RegionsClear sym platform rs := by
  rw [h.root] at hm
  obtain ⟨pss, hl, hp⟩ := mapRegions_ok hr h.inv (fun r hr => (hlow r hr).flags) hm
  refine (regionsClear_iff hlow).mpr fun r hr j hj => ?_
  obtain ⟨ps, hps, hpages⟩ := forall₂_mem hp hr
  obtain ⟨u, -, hu, hpage, -⟩ := hpages.get hj
  rw [h.kernelPage_iff, not_not, ← hpage]
  exact hl.free u (List.mem_flatten.mpr ⟨ps, hps, hu⟩)

end Kernel

/-! ## Layouts -/

variable {z : LayoutSizes} {l : ProcessMemoryLayout}

/-- Accepted sizes fit, unless something wraps. -/
theorem LayoutSizes.NoWrap.fits (h : z.NoWrap)
    (hl : processMemoryLayoutInit z.text z.rodata z.data z.bss z.stack = some l) : z.Fits ∧ l = z.layout := by
  obtain ⟨hlow, hstack⟩ := h
  rw [layoutInit_eq] at hl
  split at hl
  · cases hl
  rename_i hroom
  have htop : (alignDown USER_STACK_TOP PAGE_SIZE).toNat = USER_STACK_TOP.toNat := by decide
  have hle : USER_STACK_TOP.toNat < 2 ^ 38 := by decide
  have hw : z.wrappedStack = z.stackSize := by
    rw [LayoutSizes.wrappedStack, if_neg (by omega)]
  rw [stackStart_le_iff, LayoutSizes.Full, hw, if_pos hstack, Nat.mod_eq_of_lt hlow] at hroom
  refine ⟨?_, (Option.some.inj hl).symm⟩
  rw [LayoutSizes.Fits, htop]
  unfold LayoutSizes.low at hroom
  omega

theorem layout_flagsOk (z : LayoutSizes) : ∀ r ∈ userRegions z.layout, FlagsOk r.flags := by
  simp only [userRegions, LayoutSizes.layout, List.forall_mem_cons, FlagsOk]
  decide

theorem userRegions_sublist (l : ProcessMemoryLayout) : (userRegions l).Sublist l.regions := by
  simp only [userRegions, ProcessMemoryLayout.regions]
  exact .cons_cons _ (.cons_cons _ (.cons_cons _ (.cons_cons _ (.cons _ (.refl _)))))

theorem LayoutSizes.Plain.lowRegion (p : z.Plain) : ∀ r ∈ userRegions z.layout, LowRegion r := by
  intro r hr
  have hm := (userRegions_sublist z.layout).subset hr
  obtain ⟨hstart, hsize⟩ := p.aligned r hm
  have htop : USER_STACK_TOP.toNat ≤ 2 ^ 38 := by decide
  exact ⟨layout_flagsOk z r hr, hstart, hsize, Nat.le_trans (p.within r hm).2 htop⟩

theorem LayoutSizes.Plain.before (p : z.Plain) : (userRegions z.layout).Pairwise MemoryRegion.Before :=
  p.chain.pairwise.sublist (userRegions_sublist z.layout)

/-- The regions of an accepted layout can be mapped below the kernel's root exactly
when `paging_init` has mapped none of their pages. -/
theorem userRegions_mappable_iff {sym : KernelSymbols} {platform : PlatformInfo} {b b' : BootState}
    (hle : b.allocator.current.toNat ≤ b.allocator.end_.toNat) (hend : b.allocator.end_.toNat ≤ 2 ^ 56)
    (hinit : pagingInit sym platform b = some (true, b')) (hr : b'.root ≠ 0) (hz : z.NoWrap)
    (hl : processMemoryLayoutInit z.text z.rodata z.data z.bss z.stack = some l) :
    RegionsMappable b'.root (userRegions l) b'.toKState ↔ RegionsClear sym platform (userRegions l) := by
  obtain ⟨g, hg⟩ := pagingInit_tables hle hend hinit
  obtain ⟨hfit, rfl⟩ := hz.fits hl
  rw [hg.root] at hr
  exact hg.mappable_iff hr hfit.plain.lowRegion hfit.plain.before

/-- A program of one page of text, with a page of `.bss` and of stack. -/
def smallSizes : LayoutSizes := ⟨1, 0, 0, 4096, 4096⟩

theorem userRegions_mappable_small : ∃ b' s',
    pagingInit sampleSymbols samplePlatform (sampleBoot fun _ => 0) = some (true, b') ∧
      mapRegions .direct b'.root (userRegions smallSizes.layout) b'.toKState = some (true, s') := by
  obtain ⟨o, b', g, ho, hinit, hg, hr, hrep⟩ := sample_tables fun _ => 0
  have hz : smallSizes.NoWrap := ⟨by decide, by decide⟩
  have hl : processMemoryLayoutInit smallSizes.text smallSizes.rodata smallSizes.data smallSizes.bss smallSizes.stack =
      some smallSizes.layout := (layoutInit_eq _).trans (if_neg (by decide))
  have hpages : (Outline.pagingInit sampleSymbols samplePlatform ⟨0x80005000, 0x80020000⟩).map (fun o =>
      decide (supplies (3 * regionPages (userRegions smallSizes.layout)) o.allocator ∧
        ∀ r ∈ userRegions smallSizes.layout, ∀ j < r.size.toNat / 4096,
          vpnOf (r.start + pageOff j) ∉ o.pages)) = some true := by decide +kernel
  rw [ho, Option.map_some, Option.some.injEq, decide_eq_true_iff] at hpages
  have hclear : RegionsClear sampleSymbols samplePlatform (userRegions smallSizes.layout) := by
    refine (regionsClear_iff (hz.fits hl).1.plain.lowRegion).mpr fun r hr j hj => ?_
    rw [hg.kernelPage_iff, Option.ne_none_iff_isSome, hrep.pages]
    exact hpages.2 r hr j hj
  have hm := (userRegions_mappable_iff (by decide) (by decide) hinit (hg.root ▸ hr) hz hl).mpr hclear
  obtain ⟨s', hs'⟩ := hm.succeeds (hrep.allocator ▸ hpages.1)
  exact ⟨b', s', hinit, hs'⟩

/-- Text up to and over the page of the UART. -/
def largeText : LayoutSizes := ⟨0xFC01000, 0, 0, 0, 4096⟩

/-- A layout that is accepted, with a page that the kernel has mapped. -/
theorem largeText_not_mappable : ∃ b' l,
    pagingInit sampleSymbols samplePlatform (sampleBoot fun _ => 0) = some (true, b') ∧ b'.root ≠ 0 ∧
      largeText.NoWrap ∧
      processMemoryLayoutInit largeText.text largeText.rodata largeText.data largeText.bss largeText.stack = some l ∧
      ¬ RegionsMappable b'.root (userRegions l) b'.toKState := by
  obtain ⟨-, b', g, -, hinit, hg, hr, -⟩ := sample_tables fun _ => 0
  have hz : largeText.NoWrap := ⟨by decide, by decide⟩
  have hl : processMemoryLayoutInit largeText.text largeText.rodata largeText.data largeText.bss largeText.stack =
      some largeText.layout := (layoutInit_eq _).trans (if_neg (by decide))
  have p := (hz.fits hl).1.plain
  refine ⟨b', _, hinit, hg.root ▸ hr, hz, hl, fun hm => ?_⟩
  have hclear := (hg.mappable_iff hr p.lowRegion p.before).mp hm
  refine hclear largeText.layout.text (by simp [userRegions]) 0xFC00000 (by decide) ?_
  exact ⟨.identity (uartPage samplePlatform) PAGE_SIZE (PTE_R ||| PTE_W), by simp [kernelRanges], 0,
    by decide, by decide⟩

end RvOs
