import RvOs.Proof.LoadCorrect

/-!
# The linker script and the loader

The loader maps the pages of the flat image for reading and execution, and one
writable page after them. A linked program has its `.data` and `.bss` mapped
for writing exactly when it has no `.data`, and no `.bss` or one that starts
with a page and fits in it (`userProgram_iff`).
-/

namespace RvOs

variable {sym : KernelSymbols} {platform : PlatformInfo} {b b' : BootState} {root src imageStart imageEnd : Addr}
  {s s' s₁ : KState} {size : U64} {text bss stack : List UserPage} {program : LoadedUserProgram}
  {sections : UserSections} {n : Nat}

/-! ## The layout of the script -/

theorem le_placeSection (dot size : Nat) : dot + size ≤ placeSection dot size := by
  rw [placeSection]; split <;> omega

theorem placeSection_zero (dot : Nat) : placeSection dot 0 = dot := rfl

theorem placeSection_aligned {dot : Nat} (h : dot % 16 = 0) (size : Nat) : placeSection dot size = dot + size := by
  rw [placeSection]; split <;> omega

/-- The symbols are in order from 0x400000. -/
theorem userLink_le (sections : UserSections) :
    (userLink sections).userTextEnd = 0x400000 + sections.text ∧
      (userLink sections).userTextEnd + sections.rodata ≤ (userLink sections).userDataStart ∧
      (userLink sections).userDataStart + sections.data ≤ (userLink sections).userDataEnd ∧
      (userLink sections).userDataEnd = 0x400000 + flatImageSize sections := by
  have h₁ := placeSection_aligned (show 0x400000 % 16 = 0 from rfl) sections.text
  have h₂ := le_placeSection (placeSection 0x400000 sections.text) sections.rodata
  have h₃ := le_placeSection (placeSection (placeSection 0x400000 sections.text) sections.rodata) sections.data
  simp only [flatImageSize, userLink]
  omega

/-! ## What the loader maps for U-mode -/

/-- An address with a user page of a region is in the region. -/
theorem RegionPages.range {region : MemoryRegion} {ps : List UserPage} (h : RegionPages region n ps)
    (hal : Aligned region.start) (hlt : region.start.toNat + 4096 * n ≤ 2 ^ 38) {u : UserPage} (hu : u ∈ ps)
    {a : U64} (ha : u.page = vpnOf a) (hc : Canonical a) :
    region.start.toNat ≤ a.toNat ∧ a.toNat < region.start.toNat + 4096 * n := by
  have hm : u.page ∈ ps.map (·.page) := List.mem_map_of_mem hu
  rw [h.pages, List.mem_map] at hm
  obtain ⟨j, hj, hp⟩ := hm
  have hj := List.mem_range.mp hj
  have hadd : (region.start + pageOff j).toNat = region.start.toNat + 4096 * j := by
    rw [BitVec.toNat_add, toNat_pageOff (by omega)]; omega
  have := vpnOf_inj hc (by unfold Canonical; omega) (ha.symm.trans hp.symm)
  unfold Aligned at hal
  omega

/-- Between the bss page and the stack nothing is mapped for U-mode. -/
theorem LoadSteps.gap (hg : KernelTables sym platform b b' root) (hr : physToVirt root ≠ 0)
    (h : LoadSteps root b'.toKState src size text bss stack s₁ s') {a pa fl : U64}
    (ha : 0x400000 + 4096 * imagePages size + 4096 ≤ a.toNat ∧ a.toNat < 0x3FFFFFE000)
    (hq : pagingQuery .direct (physToVirt root) a s'.mem = some (some (pa, fl))) : hasFlag fl PTE_U = false := by
  by_contra hu
  rw [Bool.not_eq_false] at hu
  rw [pagingQuery_eq hr, virtToPhys, physToVirt, BitVec.add_sub_cancel, AddrSpace.translate, Option.some.injEq,
    Option.map_eq_some_iff] at hq
  obtain ⟨e, he, hle⟩ := hq
  obtain ⟨u, hm, hpage, -⟩ := h.user_leaf hg he hle hu
  have hfit := h.fits
  have hc : Canonical a := by unfold Canonical; omega
  have hts : (textRegion size).start.toNat = 0x400000 := rfl
  have hbs : (bssRegion size).start.toNat = 0x400000 + 4096 * imagePages size := by
    rw [bssRegion, BitVec.toNat_add, BitVec.toNat_ofNat, show USER_TEXT_START.toNat = 0x400000 from rfl]
    omega
  have hss : stackRegion.start.toNat = 0x3FFFFFE000 := rfl
  simp only [List.mem_append] at hm
  rcases hm with hm | hm | hm
  · have := h.textPages.range (show Aligned USER_TEXT_START by decide) (by omega) hm hpage hc
    omega
  · have := h.bssPages.range (by unfold Aligned; omega) (by omega) hm hpage hc
    omega
  · have := h.stackPages.range (by unfold Aligned; omega) (by omega) hm hpage hc
    omega

theorem rx_not_rw : ¬ leafFlags (PTE_R ||| PTE_X ||| PTE_U) &&& (PTE_U ||| PTE_R ||| PTE_W) =
    PTE_U ||| PTE_R ||| PTE_W := by decide

/-- An address has one translation. -/
theorem UserByte.flags {m : Mem} {a fl mask : U64} {x : Byte} (h : UserByte root m a fl x)
    (hm : ∃ pa fl, pagingQuery .direct root a m = some (some (pa, fl)) ∧ fl &&& mask = mask) : fl &&& mask = mask := by
  obtain ⟨pa, hq, -⟩ := h
  obtain ⟨pa', fl', hq', hm⟩ := hm
  rw [hq, Option.some.injEq, Option.some.injEq, Prod.mk.injEq] at hq'
  rw [hq'.2, hm]

theorem hasFlag_of_mask {fl mask f : U64} (h : fl &&& mask = mask) (hm : hasFlag mask f = true) :
    hasFlag fl f = true := by
  rw [hasFlag, bne_iff_ne] at hm ⊢
  intro hz
  refine hm ?_
  rw [← h, BitVec.and_assoc, BitVec.and_comm mask, ← BitVec.and_assoc, hz]
  exact BitVec.zero_and

/-- What U-mode finds mapped of a flat image of `n` bytes: its pages, which are not
writable, one page after them, and nothing from there to the stack. -/
structure LoadedPages (root : Addr) (m : Mem) (n : Nat) : Prop where
  fits : 0x400000 + 4096 * ((n + 4095) / 4096) + 4096 < 0x3FFFFFE000
  image : ∀ a : U64, 0x400000 ≤ a.toNat → a.toNat < 0x400000 + 4096 * ((n + 4095) / 4096) →
    ∃ x, UserByte root m a (leafFlags (PTE_R ||| PTE_X ||| PTE_U)) x
  bss : ∀ a : U64, 0x400000 + 4096 * ((n + 4095) / 4096) ≤ a.toNat →
    a.toNat < 0x400000 + 4096 * ((n + 4095) / 4096) + 4096 → UserByte root m a (leafFlags (PTE_R ||| PTE_W ||| PTE_U)) 0
  gap : ∀ (a pa fl : U64), 0x400000 + 4096 * ((n + 4095) / 4096) + 4096 ≤ a.toNat → a.toNat < 0x3FFFFFE000 →
    pagingQuery .direct root a m = some (some (pa, fl)) → hasFlag fl PTE_U = false

theorem LoadSteps.loadedPages (hg : KernelTables sym platform b b' root) (hr : physToVirt root ≠ 0)
    (h : LoadSteps root b'.toKState src size text bss stack s₁ s') :
    LoadedPages (physToVirt root) s'.mem size.toNat := by
  obtain ⟨himage, hrest, hbss, -⟩ := h.user_bytes hr
  have hfit := h.fits
  refine ⟨by unfold Fits imagePages at hfit; omega, fun a h₁ h₂ => ?_, hbss, fun a pa fl h₁ h₂ hq => ?_⟩
  · by_cases hi : a.toNat < 0x400000 + size.toNat
    · have ha : textAddr (a.toNat - 0x400000) = a :=
        BitVec.eq_of_toNat_eq (by rw [toNat_textAddr (by omega)]; omega)
      exact ⟨_, ha ▸ himage (a.toNat - 0x400000) (by omega)⟩
    · exact ⟨_, hrest a (by omega) h₂⟩
  · exact h.gap hg hr ⟨h₁, h₂⟩ hq

theorem LoadedPages.onePageBss {m : Mem} (h : LoadedPages root m (flatImageSize sections))
    (hs : SectionsMapped root m (userLink sections)) : OnePageBss sections := by
  have hfit := h.fits
  obtain ⟨l₁, l₂, l₃, l₄⟩ := userLink_le sections
  have hbssStart : (userLink sections).userBssStart = (userLink sections).userDataEnd := rfl
  have hbssEnd : (userLink sections).userBssEnd = placeSection (userLink sections).userDataEnd sections.bss := rfl
  have htoNat : ∀ {n : Nat}, n < 2 ^ 64 → (BitVec.ofNat 64 n).toNat = n := fun hn => by
    rw [BitVec.toNat_ofNat, Nat.mod_eq_of_lt hn]
  -- the bytes of the image are not writable
  have hdata : sections.data = 0 := Nat.eq_zero_of_not_pos fun hd => by
    have hn := htoNat (n := (userLink sections).userDataStart) (by omega)
    obtain ⟨x, hx⟩ := h.image (BitVec.ofNat 64 (userLink sections).userDataStart) (by omega) (by omega)
    exact rx_not_rw (hx.flags (hs.data _ (by omega) (by omega)))
  refine ⟨hdata, ?_⟩
  by_cases hz : sections.bss = 0
  · exact .inl hz
  have hlt := le_placeSection (userLink sections).userDataEnd sections.bss
  have hb := hs.bss
  rw [hbssStart, hbssEnd] at hb
  have hal : flatImageSize sections % 4096 = 0 := by
    by_contra hal
    have hn := htoNat (n := (userLink sections).userDataEnd) (by omega)
    obtain ⟨x, hx⟩ := h.image (BitVec.ofNat 64 (userLink sections).userDataEnd) (by omega) (by omega)
    exact rx_not_rw (hx.flags (hb _ (by omega) (by omega)))
  refine .inr ⟨hal, Nat.le_of_not_lt fun hbig => ?_⟩
  have hn := htoNat (n := (userLink sections).userDataEnd + 4096) (by omega)
  obtain ⟨pa, fl, hq, hfl⟩ := hb (BitVec.ofNat 64 ((userLink sections).userDataEnd + 4096)) (by omega) (by omega)
  have hu := h.gap _ _ _ (by omega) (by omega) hq
  rw [hasFlag_of_mask hfl (by decide)] at hu
  cases hu

theorem LoadedPages.sectionsMapped {m : Mem} (h : LoadedPages root m (flatImageSize sections))
    (hb : OnePageBss sections) : SectionsMapped root m (userLink sections) := by
  obtain ⟨hd, hb⟩ := hb
  obtain ⟨l₁, l₂, l₃, l₄⟩ := userLink_le sections
  have hbssStart : (userLink sections).userBssStart = (userLink sections).userDataEnd := rfl
  have hbssEnd : (userLink sections).userBssEnd = placeSection (userLink sections).userDataEnd sections.bss := rfl
  have hde : (userLink sections).userDataEnd = (userLink sections).userDataStart := by
    simp only [userLink, hd, placeSection_zero]
  -- an address of `.bss` is in the page after the image
  have hin : ∀ a : U64, (userLink sections).userBssStart ≤ a.toNat → a.toNat < (userLink sections).userBssEnd →
      UserByte root m a (leafFlags (PTE_R ||| PTE_W ||| PTE_U)) 0 := fun a h₁ h₂ => by
    rw [hbssStart] at h₁
    rw [hbssEnd] at h₂
    rcases hb with hb | ⟨hal, hle⟩
    · rw [hb, placeSection_zero] at h₂
      omega
    · rw [placeSection_aligned (by omega)] at h₂
      exact h.bss a (by omega) (by omega)
  refine ⟨fun a h₁ h₂ => by omega, fun a h₁ h₂ => ?_, fun a h₁ h₂ => ?_, fun a h₁ h₂ => ?_⟩
  · obtain ⟨pa, hq, -⟩ := hin a h₁ h₂
    exact ⟨pa, _, hq, by decide⟩
  · have hts : (userLink sections).userTextStart = 0x400000 := rfl
    obtain ⟨x, pa, hq, -⟩ := h.image a (by omega) (by omega)
    exact ⟨pa, _, hq, by decide⟩
  · obtain ⟨pa, hq, hz⟩ := hin a h₁ h₂
    exact ⟨pa, _, hq, hz⟩

/-- The sections of a linked program are mapped for what they are exactly when it
has no `.data` and its `.bss` is empty or is the page the loader maps for it. -/
theorem userProgram_iff (hw : PlatformWithin (2 ^ 56) platform)
    (hp : physicalPageAllocatorInit platform = (true, b.allocator))
    (hinit : pagingInit sym platform b = some (true, b'))
    (himg : imageStart.toNat ≤ imageEnd.toNat ∧ imageEnd.toNat ≤ platform.kernelEnd.toNat)
    (hflat : imageEnd.toNat - imageStart.toNat = flatImageSize sections)
    (hl : processLoadInitialUserProgram .direct .phys b'.root imageStart imageEnd b'.toKState =
      some (some program, s')) :
    SectionsMapped b'.root s'.mem (userLink sections) ↔ OnePageBss sections := by
  obtain ⟨g, hg, -, hr, text, bss, stack, s₁, h⟩ := loadSteps_of_boot hw hp hinit himg hl
  have hsz : (imageEnd - imageStart).toNat = flatImageSize sections := by
    have := imageStart.isLt
    rw [BitVec.toNat_sub]
    omega
  have hpages := h.loadedPages hg hr
  rw [hsz, ← hg.root] at hpages
  exact ⟨hpages.onePageBss, hpages.sectionsMapped⟩

/-- The sizes of `init.S`: code, its strings, and the 64 bytes of `input_buffer`. -/
def initSections : UserSections where
  text := 112
  rodata := 44
  data := 0
  bss := 64

/-- `input_buffer` of `init.S` is in a page that is not writable. -/
theorem input_buffer_not_writable : ∃ b' s',
    pagingInit sampleSymbols samplePlatform (sampleBoot fun _ => 0) = some (true, b') ∧
    processLoadInitialUserProgram .direct .phys b'.root 0x80002000 0x8000209C b'.toKState =
      some (some ⟨0x400000, 0x3FFFFFF000⟩, s') ∧
    flatImageSize initSections = 0x8000209C - 0x80002000 ∧
    (userLink initSections).userBssStart ≤ 0x4000A0 ∧ 0x4000A0 < (userLink initSections).userBssEnd ∧
    (∃ pa, pagingQuery .direct b'.root 0x4000A0 s'.mem = some (some (pa, leafFlags (PTE_R ||| PTE_X ||| PTE_U)))) ∧
    ¬ SectionsMapped b'.root s'.mem (userLink initSections) := by
  obtain ⟨b', s', hinit, hl⟩ := sample_load 0x80002000 0x8000209C (fun _ => 0)
    (by decide) (by decide) (by decide)
  obtain ⟨g, hg, -, hr, text, bss, stack, s₁, h⟩ := loadSteps_of_boot (sample_within (by decide))
    (sample_allocator _) hinit ⟨by decide, by decide⟩ hl
  obtain ⟨-, hrest, -, -⟩ := h.user_bytes hr
  have hbyte := hrest 0x4000A0 (by decide) (by decide)
  rw [← hg.root] at hbyte
  refine ⟨b', s', hinit, hl, by decide, by decide, by decide, ?_, fun hs => ?_⟩
  · obtain ⟨pa, hq, -⟩ := hbyte
    exact ⟨pa, hq⟩
  · exact rx_not_rw (hbyte.flags (hs.bss 0x4000A0 (by decide) (by decide)))

theorem userProgram_iff_sample : ∃ b' s',
    pagingInit sampleSymbols samplePlatform (sampleBoot fun _ => 0) = some (true, b') ∧
    processLoadInitialUserProgram .direct .phys b'.root 0x80002000 0x80003000 b'.toKState =
      some (some ⟨0x400000, 0x3FFFFFF000⟩, s') ∧
    SectionsMapped b'.root s'.mem (userLink ⟨4000, 96, 0, 64⟩) := by
  obtain ⟨b', s', hinit, hl⟩ := sample_load 0x80002000 0x80003000 (fun _ => 0)
    (by decide) (by decide) (by decide)
  exact ⟨b', s', hinit, hl, (userProgram_iff (sample_within (by decide)) (sample_allocator _) hinit
    ⟨by decide, by decide⟩ (by decide) hl).mpr (by decide)⟩

end RvOs
