import RvOs.Proof.LoadOutline
import RvOs.Proof.UserCopy
import RvOs.Spec.Load

/-!
# The user program after boot

From `paging_init` to the end of the loader: what user addresses read
(`processLoad_image`), and which frames they reach (`user_isolated`). Sv39
translates for the program by the same tables (`SampleProcess`).
-/

namespace RvOs

variable {sym : KernelSymbols} {platform : PlatformInfo} {b b' : BootState} {root src imageStart imageEnd : Addr}
  {s s' s₁ : KState} {size : U64} {text bss stack : List UserPage} {program : LoadedUserProgram}

section Steps

variable (h : LoadSteps root s src size text bss stack s₁ s')

include h

theorem LoadSteps.mem_table {p : List Idx} {f a : Addr} (hp : p.length ≤ 2) (hf : tableAt s₁.mem root p = some f)
    (ha : InFrame f a) : s'.mem a = s₁.mem a := by
  refine h.rest a fun i _ u hu _ e => ?_
  exact h.loaded.not_table (List.mem_append_left _ hu) _ p f hp hf (e ▸ ha)

theorem LoadSteps.entry {p : List Idx} {f : Addr} (hp : p.length ≤ 2) (hf : tableAt s₁.mem root p = some f)
    (i : Idx) : RvOs.entry s'.mem f i = RvOs.entry s₁.mem f i :=
  entry_congr (h.loaded.inv.tables.aligned hp hf) (fun _ ha => h.mem_table hp hf ha) i

/-- The copy keeps the tables, -/
theorem LoadSteps.tableAt {p : List Idx} (hp : p.length ≤ 2) : tableAt s'.mem root p = tableAt s₁.mem root p :=
  tableAt_congr (fun _ _ i hp hf => h.entry (by omega) hf i) hp

/-- the translations -/
theorem LoadSteps.space : space s'.mem root = space s₁.mem root :=
  space_congr fun _ _ i hp hf => h.entry hp hf i

/-- and the invariant. -/
theorem LoadSteps.inv : KInv root s' := by
  refine ⟨h.loaded.inv.tables.congr ?_ fun _ _ i hp hf => h.entry hp hf i, ?_⟩ <;> rw [h.allocator]
  exact h.loaded.inv.alloc

/-- The address of a user page. -/
theorem LoadSteps.query (hr : physToVirt root ≠ 0) {u : UserPage} (hu : u ∈ text ++ (bss ++ stack)) {a : U64}
    (ha : u.page = vpnOf a) :
    pagingQuery .direct (physToVirt root) a s'.mem = some (some (u.addr a, leafFlags u.flags)) := by
  rw [pagingQuery_physToVirt hr, h.space, h.loaded.translate hu (h.flagsOk u hu) ha]

/-- What was mapped stays so. -/
theorem LoadSteps.query_keep (hr : physToVirt root ≠ 0) {va : U64} {x : U64 × U64}
    (hx : pagingQuery .direct (physToVirt root) va s.mem = some (some x)) :
    pagingQuery .direct (physToVirt root) va s'.mem = some (some x) := by
  rw [pagingQuery_physToVirt hr, AddrSpace.translate, Option.some.injEq, Option.map_eq_some_iff] at hx ⊢
  obtain ⟨e, he, hx⟩ := hx
  rw [h.space]
  exact ⟨e, h.loaded.grows.grows.space he, hx⟩

/-- Nothing changes but the frames handed out since, and the page tables. -/
theorem LoadSteps.mem_eq {a : Addr} (ha : a.toNat < s.allocator.current.toNat ∨ s'.allocator.current.toNat ≤ a.toNat)
    (hn : ∀ p f, p.length ≤ 2 → RvOs.tableAt s.mem root p = some f → ¬ InFrame f a) : s'.mem a = s.mem a := by
  rw [h.allocator] at ha
  rw [h.rest, h.loaded.grows.grows.mem a ha hn]
  -- the image went to frames handed out since
  rintro i - u hu - rfl
  have hnew := h.loaded.addr_handedOut (List.mem_append_left (bss ++ stack) hu) (a := textAddr i) rfl
  omega

/-- What the image does not reach is zero. -/
theorem LoadSteps.zero {u : UserPage} (hu : u ∈ text ++ (bss ++ stack)) {a : U64} (ha : u.page = vpnOf a)
    (hc : Canonical a) (hn : ∀ i < size.toNat, a ≠ textAddr i) : s'.mem (u.addr a) = 0 := by
  have hfit := h.fits
  have hsz : size.toNat ≤ 4096 * imagePages size := by rw [imagePages]; omega
  rw [h.rest]
  · exact h.loaded.zero u hu _ (u.inFrame (h.loaded.data u hu).frame a)
  · intro i hi u' hu' hp e
    refine hn i hi (h.loaded.addr_inj hu (List.mem_append_left _ hu') ha hp hc ?_ e)
    unfold Canonical
    rw [toNat_textAddr (by omega)]
    omega

/-- What the addresses of the user program read, with the flags of their pages. -/
theorem LoadSteps.user_bytes (hr : physToVirt root ≠ 0) :
    (∀ i < size.toNat, UserByte (physToVirt root) s'.mem (textAddr i) (leafFlags (PTE_R ||| PTE_X ||| PTE_U))
      (s.mem (src + BitVec.ofNat 64 i))) ∧
    (∀ a : U64, 0x400000 + size.toNat ≤ a.toNat → a.toNat < 0x400000 + 4096 * imagePages size →
      UserByte (physToVirt root) s'.mem a (leafFlags (PTE_R ||| PTE_X ||| PTE_U)) 0) ∧
    (∀ a : U64, 0x400000 + 4096 * imagePages size ≤ a.toNat → a.toNat < 0x400000 + 4096 * imagePages size + 4096 →
      UserByte (physToVirt root) s'.mem a (leafFlags (PTE_R ||| PTE_W ||| PTE_U)) 0) ∧
    (∀ a : U64, 0x3FFFFFF000 - 4096 ≤ a.toNat → a.toNat < 0x3FFFFFF000 →
      UserByte (physToVirt root) s'.mem a (leafFlags (PTE_R ||| PTE_W ||| PTE_U)) 0) := by
  have hfit := h.fits
  have hsz : size.toNat ≤ 4096 * imagePages size := by rw [imagePages]; omega
  have hbss : (bssRegion size).start.toNat = 0x400000 + 4096 * imagePages size := by
    rw [bssRegion, BitVec.toNat_add, BitVec.toNat_ofNat, show USER_TEXT_START.toNat = 0x400000 from rfl]
    omega
  have hcan : ∀ a : U64, a.toNat < 0x3FFFFFF000 → Canonical a := fun a ha => by unfold Canonical; omega
  -- an address past the image is none of its own
  have hpast : ∀ a : U64, 0x400000 + size.toNat ≤ a.toNat → ∀ i < size.toNat, a ≠ textAddr i := by
    rintro a ha i hi rfl
    rw [toNat_textAddr (by omega)] at ha
    omega
  refine ⟨fun i hi => ?_, fun a h₁ h₂ => ?_, fun a h₁ h₂ => ?_, fun a h₁ h₂ => ?_⟩
  · have hti := toNat_textAddr (i := i) (by omega)
    obtain ⟨u, hu, hpage, hfl⟩ := text_page h.textPages hfit (a := textAddr i) (by omega)
    refine ⟨_, hfl ▸ h.query hr (List.mem_append_left _ hu) hpage, ?_⟩
    exact h.copied i hi u hu hpage
  · obtain ⟨u, hu, hpage, hfl⟩ := text_page h.textPages hfit (a := a) (by omega)
    refine ⟨_, hfl ▸ h.query hr (List.mem_append_left _ hu) hpage, ?_⟩
    exact h.zero (List.mem_append_left _ hu) hpage (hcan a (by omega)) (hpast a h₁)
  · obtain ⟨u, hu, hpage, hfl⟩ := h.bssPages.mem (by unfold Aligned; omega) (by omega) (a := a) (by omega)
    change u.flags = PTE_R ||| PTE_W ||| PTE_U at hfl
    have hm := List.mem_append_right text (List.mem_append_left stack hu)
    exact ⟨_, hfl ▸ h.query hr hm hpage, h.zero hm hpage (hcan a (by omega)) (hpast a (by omega))⟩
  · have hst : stackRegion.start.toNat = 0x3FFFFFE000 := rfl
    obtain ⟨u, hu, hpage, hfl⟩ := h.stackPages.mem (by unfold Aligned; omega) (by omega) (a := a) (by omega)
    change u.flags = PTE_R ||| PTE_W ||| PTE_U at hfl
    have hm := List.mem_append_right text (List.mem_append_right bss hu)
    exact ⟨_, hfl ▸ h.query hr hm hpage, h.zero hm hpage (hcan a h₂) (hpast a (by omega))⟩

theorem LoadSteps.translates {u : UserPage} (hu : u ∈ text ++ (bss ++ stack)) (hl : LegalFlags u.flags) {va : U64}
    (ha : u.page = vpnOf va) (hc : Canonical va) :
    sv39Translate s'.mem root va = some (u.addr va, leafFlags u.flags) := by
  have hlt := (h.loaded.data u hu).frame.lt
  have hs : RvOs.space s'.mem root (vpnOf va) = some u.pte := by
    rw [h.space, h.loaded.space]
    exact .inr ⟨u, hu, ha.symm, rfl⟩
  have hlegal : ∀ e, RvOs.space s'.mem root (vpnOf va) = some e → LegalLeaf e := fun e he => by
    obtain rfl := Option.some.inj (hs.symm.trans he)
    exact legalLeaf_pte (by omega) hl
  refine (sv39Translate_eq h.inv.tables hlegal hc).trans ?_
  rw [h.space]
  exact h.loaded.translate hu (h.flagsOk u hu) ha

/-- The pages of the image are for loads and execution, -/
theorem LoadSteps.translates_text {va : U64} (hge : 0x400000 ≤ va.toNat)
    (hlt : va.toNat < 0x400000 + 4096 * imagePages size) : ∃ u ∈ text, u.page = vpnOf va ∧
      sv39Translate s'.mem root va = some (u.addr va, leafFlags (PTE_R ||| PTE_X ||| PTE_U)) := by
  have hfit := h.fits
  obtain ⟨u, hu, hpage, hfl⟩ := text_page h.textPages hfit ⟨hge, hlt⟩
  have hlegal : LegalFlags u.flags := hfl ▸ ⟨by decide, by decide, by decide⟩
  refine ⟨u, hu, hpage, ?_⟩
  rw [← hfl]
  exact h.translates (List.mem_append_left _ hu) hlegal hpage (by unfold Canonical; omega)

/-- and the one after them for loads and stores. -/
theorem LoadSteps.translates_bss {va : U64} (hge : 0x400000 + 4096 * imagePages size ≤ va.toNat)
    (hlt : va.toNat < 0x400000 + 4096 * imagePages size + 4096) :
    ∃ pa, sv39Translate s'.mem root va = some (pa, leafFlags (PTE_R ||| PTE_W ||| PTE_U)) := by
  have hfit := h.fits
  have hbss : (bssRegion size).start.toNat = 0x400000 + 4096 * imagePages size := by
    rw [bssRegion, BitVec.toNat_add, BitVec.toNat_ofNat, show USER_TEXT_START.toNat = 0x400000 from rfl]
    omega
  obtain ⟨u, hu, hpage, hfl⟩ := h.bssPages.mem (by unfold Aligned; omega) (by omega) (a := va) ⟨by omega, by omega⟩
  change u.flags = PTE_R ||| PTE_W ||| PTE_U at hfl
  have hlegal : LegalFlags u.flags := hfl ▸ ⟨by decide, by decide, by decide⟩
  refine ⟨u.addr va, ?_⟩
  rw [← hfl]
  exact h.translates (List.mem_append_right _ (List.mem_append_left _ hu)) hlegal hpage (by unfold Canonical; omega)

end Steps

/-- The steps of a loader after `paging_init`: the image is in the kernel's, so
no frame is handed out over it. -/
theorem loadSteps_of_boot (hw : PlatformWithin (2 ^ 56) platform)
    (hp : physicalPageAllocatorInit platform = (true, b.allocator))
    (hinit : pagingInit sym platform b = some (true, b'))
    (himg : imageStart.toNat ≤ imageEnd.toNat ∧ imageEnd.toNat ≤ platform.kernelEnd.toNat)
    (hl : processLoadInitialUserProgram .direct .phys b'.root imageStart imageEnd b'.toKState =
      some (some program, s')) :
    ∃ g, KernelTables sym platform b b' g ∧ program = ⟨USER_TEXT_START, USER_STACK_TOP⟩ ∧ physToVirt g ≠ 0 ∧
      ∃ text bss stack s₁, LoadSteps g b'.toKState imageStart (imageEnd - imageStart) text bss stack s₁ s' := by
  have hcur := (physicalPageAllocatorInit_ok (by decide) hp hw.kernel hw.dtb hw.ram).1
  have hk := hw.kernel
  have ha := allocOk_of_pagingInit hw hp hinit
  obtain ⟨g, hg⟩ := pagingInit_ok ha hinit
  have hsz := BitVec.toNat_sub_of_le himg.1
  rw [hg.root] at hl
  exact ⟨g, hg, processLoad_ok hg.inv (by omega) (hg.source_apart himg.1 (by omega)) hl⟩

/-- The loader's result, read through `paging_query`: the image at 0x400000, zeros
in the rest of its last page, the bss page and the stack page, with their flags;
nothing that was mapped, and no byte outside the new frames and the page
tables, has changed. -/
theorem processLoad_image (hw : PlatformWithin (2 ^ 56) platform)
    (hp : physicalPageAllocatorInit platform = (true, b.allocator))
    (hinit : pagingInit sym platform b = some (true, b'))
    (himg : imageStart.toNat ≤ imageEnd.toNat ∧ imageEnd.toNat ≤ platform.kernelEnd.toNat)
    {size textEnd : Nat} (hsize : size = imageEnd.toNat - imageStart.toNat)
    (htextEnd : textEnd = 0x400000 + (size + 4095) / 4096 * 4096)
    (hl : processLoadInitialUserProgram .direct .phys b'.root imageStart imageEnd b'.toKState =
      some (some program, s')) :
    (∀ i < size, UserByte b'.root s'.mem (0x400000 + BitVec.ofNat 64 i) (leafFlags (PTE_R ||| PTE_X ||| PTE_U))
      (b'.mem (imageStart + BitVec.ofNat 64 i))) ∧
    (∀ a : U64, 0x400000 + size ≤ a.toNat → a.toNat < textEnd →
      UserByte b'.root s'.mem a (leafFlags (PTE_R ||| PTE_X ||| PTE_U)) 0) ∧
    (∀ a : U64, textEnd ≤ a.toNat → a.toNat < textEnd + 4096 →
      UserByte b'.root s'.mem a (leafFlags (PTE_R ||| PTE_W ||| PTE_U)) 0) ∧
    (∀ a : U64, 0x3FFFFFF000 - 4096 ≤ a.toNat → a.toNat < 0x3FFFFFF000 →
      UserByte b'.root s'.mem a (leafFlags (PTE_R ||| PTE_W ||| PTE_U)) 0) ∧
    program = ⟨0x400000, 0x3FFFFFF000⟩ ∧
    (∀ va x, Canonical va → pagingQuery .direct b'.root va b'.mem = some (some x) →
      pagingQuery .direct b'.root va s'.mem = some (some x)) ∧
    (∀ a : Addr, a.toNat < b'.allocator.current.toNat ∨ s'.allocator.current.toNat ≤ a.toNat →
      s'.mem a = b'.mem a ∨
        ∃ p f, p.length ≤ 2 ∧ tableAt b'.mem (virtToPhys b'.root) p = some f ∧ InFrame f a) := by
  obtain ⟨g, hg, hprog, hr, text, bss, stack, s₁, h⟩ := loadSteps_of_boot hw hp hinit himg hl
  have hk := hw.kernel
  have hsz : (imageEnd - imageStart).toNat = size := by
    rw [BitVec.toNat_sub]; have := imageStart.isLt; omega
  have hpages : 0x400000 + 4096 * imagePages (imageEnd - imageStart) = textEnd := by
    rw [imagePages, hsz]; omega
  have hv : virtToPhys (physToVirt g) = g := BitVec.add_sub_cancel ..
  obtain ⟨himage, hrest, hbss, hstack⟩ := h.user_bytes hr
  rw [hsz, hpages] at hrest
  rw [hpages] at hbss
  rw [hsz] at himage
  rw [hg.root]
  refine ⟨himage, hrest, hbss, hstack, hprog, fun va x _ hx => h.query_keep hr hx, fun a ha => ?_⟩
  by_cases ht : ∃ p f, p.length ≤ 2 ∧ tableAt b'.mem (virtToPhys (physToVirt g)) p = some f ∧ InFrame f a
  · exact .inr ht
  · rw [hv] at ht
    exact .inl (h.mem_eq ha fun p f hp hf hin => ht ⟨p, f, hp, hf, hin⟩)

/-- An image of 100 bytes in `.data`. -/
theorem processLoad_image_sample : ∃ b' s',
    pagingInit sampleSymbols samplePlatform (sampleBoot fun _ => 0) = some (true, b') ∧
    processLoadInitialUserProgram .direct .phys b'.root 0x80002000 0x80002064 b'.toKState =
      some (some ⟨0x400000, 0x3FFFFFF000⟩, s') ∧
    UserByte b'.root s'.mem 0x400005 (leafFlags (PTE_R ||| PTE_X ||| PTE_U)) (b'.mem 0x80002005) ∧
    UserByte b'.root s'.mem 0x400064 (leafFlags (PTE_R ||| PTE_X ||| PTE_U)) 0 ∧
    UserByte b'.root s'.mem 0x401000 (leafFlags (PTE_R ||| PTE_W ||| PTE_U)) 0 ∧
    UserByte b'.root s'.mem 0x3FFFFFEFFF (leafFlags (PTE_R ||| PTE_W ||| PTE_U)) 0 := by
  obtain ⟨b', s', hinit, hl⟩ := sample_load 0x80002000 0x80002064 (fun _ => 0)
    (by decide) (by decide) (by decide)
  obtain ⟨himage, hrest, hbss, hstack, -, -, -⟩ := processLoad_image (sample_within (by decide))
    (sample_allocator _) hinit ⟨by decide, by decide⟩ rfl rfl hl
  exact ⟨b', s', hinit, hl, himage 5 (by decide), hrest _ (by decide) (by decide),
    hbss _ (by decide) (by decide), hstack _ (by decide) (by decide)⟩

/-! ## Isolation -/

/-- A page for U-mode is a user page. -/
theorem LoadSteps.user_leaf (hg : KernelTables sym platform b b' root)
    (h : LoadSteps root b'.toKState src size text bss stack s₁ s') {va pa fl e : U64}
    (he : RvOs.space s'.mem root (vpnOf va) = some e) (hle : leafAt e (va &&& (PAGE_SIZE - 1)) = (pa, fl))
    (hu : hasFlag fl PTE_U = true) : ∃ u ∈ text ++ (bss ++ stack), u.page = vpnOf va ∧ pa = u.addr va := by
  rw [h.space, h.loaded.space, hg.space] at he
  rcases he with ⟨r, hr, j, -, -, rfl⟩ | ⟨u, hm, hpage, rfl⟩
  · -- no range of the kernel is for U-mode
    have hfl : fl = leafFlags r.flags := by
      refine (congrArg Prod.snd hle).symm.trans ?_
      exact pte_flags (leafFlags_lt (kernelRanges_flagsOk sym platform r hr).1)
    rw [hfl, kernelRanges_not_user sym platform r hr] at hu
    cases hu
  · have hd := (h.loaded.data u hm).frame
    have hlt := hd.lt
    rw [UserPage.pte, leafAt_pte (h.flagsOk u hm).1 (by omega) hd.aligned] at hle
    exact ⟨u, hm, hpage.symm, (congrArg Prod.fst hle).symm⟩

theorem LoadSteps.user (hg : KernelTables sym platform b b' root)
    (h : LoadSteps root b'.toKState src size text bss stack s₁ s') {va pa fl : U64}
    (ht : sv39Translate s'.mem (satpRoot b'.satp) va = some (pa, fl)) (hu : hasFlag fl PTE_U = true) :
    ∃ u ∈ text ++ (bss ++ stack), u.page = vpnOf va ∧ pa = u.addr va := by
  rw [hg.satp, satpRoot_makeSatpSv39 hg.frame] at ht
  obtain ⟨-, e, he, -, hle⟩ := sv39Translate_some h.inv.tables ht
  exact h.user_leaf hg he hle hu

/-- The frames of the pages for U-mode are apart from the kernel image, the device
tree and the page tables, and from each other. -/
theorem user_isolated (hw : PlatformWithin (2 ^ 56) platform)
    (hp : physicalPageAllocatorInit platform = (true, b.allocator))
    (hinit : pagingInit sym platform b = some (true, b'))
    (himg : imageStart.toNat ≤ imageEnd.toNat ∧ imageEnd.toNat ≤ platform.kernelEnd.toNat)
    (hl : processLoadInitialUserProgram .direct .phys b'.root imageStart imageEnd b'.toKState =
      some (some program, s')) :
    (∀ va pa fl, sv39Translate s'.mem (satpRoot b'.satp) va = some (pa, fl) → hasFlag fl PTE_U = true →
      (∀ x : Addr, InFrame pa x →
        ¬ (platform.kernelStart.toNat ≤ x.toNat ∧ x.toNat < platform.kernelEnd.toNat) ∧
        ¬ (platform.dtbAddr.toNat ≤ x.toNat ∧ x.toNat < platform.dtbAddr.toNat + platform.dtbSize.toNat) ∧
        ∀ p f, p.length ≤ 2 → tableAt s'.mem (satpRoot b'.satp) p = some f → ¬ InFrame f x)) ∧
    ∀ va va' pa pa' fl fl', sv39Translate s'.mem (satpRoot b'.satp) va = some (pa, fl) → hasFlag fl PTE_U = true →
      sv39Translate s'.mem (satpRoot b'.satp) va' = some (pa', fl') → hasFlag fl' PTE_U = true →
      InFrame pa pa' → vpnOf va = vpnOf va' := by
  obtain ⟨g, hg, -, -, text, bss, stack, s₁, h⟩ := loadSteps_of_boot hw hp hinit himg hl
  have hcur := (physicalPageAllocatorInit_ok (by decide) hp hw.kernel hw.dtb hw.ram).1
  have hle := hg.le
  refine ⟨fun va pa fl ht hu x hx => ?_, fun va va' pa pa' fl fl' ht hu ht' hu' hpp => ?_⟩
  · obtain ⟨u, hm, hpage, rfl⟩ := h.user hg ht hu
    have hge := (h.loaded.addr_handedOut hm hx).1
    refine ⟨by omega, by omega, fun p f hp hf hfx => ?_⟩
    rw [hg.satp, satpRoot_makeSatpSv39 hg.frame, h.tableAt hp] at hf
    exact h.loaded.not_table hm va p f hp hf (hx.symm.trans hfx)
  · obtain ⟨u, hm, hpage, rfl⟩ := h.user hg ht hu
    obtain ⟨u', hm', hpage', rfl⟩ := h.user hg ht' hu'
    rw [← hpage, ← hpage', h.loaded.eq_of_addr hm hm' hpp]

theorem user_isolated_sample : ∃ b' s',
    pagingInit sampleSymbols samplePlatform (sampleBoot fun _ => 0) = some (true, b') ∧
    processLoadInitialUserProgram .direct .phys b'.root 0x80002000 0x80002064 b'.toKState =
      some (some ⟨0x400000, 0x3FFFFFF000⟩, s') ∧
    ∀ va pa fl, sv39Translate s'.mem (satpRoot b'.satp) va = some (pa, fl) → hasFlag fl PTE_U = true →
      ∀ x : Addr, InFrame pa x → ¬ (0x80000000 ≤ x.toNat ∧ x.toNat < 0x80004000) := by
  obtain ⟨b', s', hinit, hl⟩ := sample_load 0x80002000 0x80002064 (fun _ => 0)
    (by decide) (by decide) (by decide)
  obtain ⟨hkernel, -⟩ := user_isolated (sample_within (by decide)) (sample_allocator _) hinit
    ⟨by decide, by decide⟩ hl
  exact ⟨b', s', hinit, hl, fun va pa fl ht hu x hx => (hkernel va pa fl ht hu x hx).1⟩

/-! ## The translation in force -/

/-- The translation in force after the user program is loaded on `samplePlatform`. -/
structure SampleProcess (T : Translation) : Prop where
  process : ∃ b' s',
    pagingInit sampleSymbols samplePlatform (sampleBoot fun _ => 0) = some (true, b') ∧
      processLoadInitialUserProgram .direct .phys b'.root 0x80002000 0x80002064 b'.toKState =
        some (some ⟨0x400000, 0x3FFFFFF000⟩, s') ∧
      T = sv39Translate s'.mem (satpRoot b'.satp)
  bss : T sampleSymbols.bssStart = some (sampleSymbols.bssStart, leafFlags (PTE_R ||| PTE_W))
  kernel : ∀ flag pa, samplePlatform.kernelStart.toNat ≤ pa.toNat → pa.toNat < samplePlatform.kernelEnd.toNat →
    ¬ T.InUserPage flag pa
  /-- Not a canonical address. -/
  none : T 0x4000000000 = none

theorem sample_process : ∃ T, SampleProcess T := by
  obtain ⟨b', s', hinit, hl⟩ := sample_load 0x80002000 0x80002064 (fun _ => 0)
    (by decide) (by decide) (by decide)
  obtain ⟨g, hg, -, -, text, bss, stack, s₁, h⟩ := loadSteps_of_boot (sample_within (by decide))
    (sample_allocator _) hinit ⟨by decide, by decide⟩ hl
  refine ⟨_, ⟨b', s', hinit, hl, rfl⟩, ?_, fun flag pa hge hlt hu => ?_, rfl⟩
  · have hr : MapRange.identity sampleSymbols.bssStart (sampleSymbols.bssEnd - sampleSymbols.bssStart)
        (PTE_R ||| PTE_W) ∈ kernelRanges sampleSymbols samplePlatform := by simp [kernelRanges]
    have hs : space s'.mem g (vpnOf sampleSymbols.bssStart) =
        some (pteFromPhysAddr sampleSymbols.bssStart (leafFlags (PTE_R ||| PTE_W))) := by
      rw [h.space, h.loaded.space, hg.space]
      exact .inl ⟨_, hr, 0, by decide, rfl, rfl⟩
    rw [hg.satp, satpRoot_makeSatpSv39 hg.frame, sv39Translate_eq h.inv.tables (fun e he => by
      rw [hs] at he; cases he; exact legalLeaf_pte (by decide) legalFlags_rw) (by decide), AddrSpace.translate, hs]
    rfl
  · obtain ⟨va, fl, ht, hfu, -⟩ := hu
    obtain ⟨u, hm, -, rfl⟩ := h.user hg ht hfu
    have hnew := (h.loaded.addr_handedOut hm (a := va) rfl).1
    have hcur : (sampleBoot fun _ => 0).allocator.current.toNat = 0x80005000 := rfl
    have hend : samplePlatform.kernelEnd.toNat = 0x80004000 := rfl
    have hle := hg.le
    omega

theorem SampleProcess.steps {T : Translation} (h : SampleProcess T) : ∃ g s text bss stack s₁ s',
    LoadSteps g s 0x80002000 0x64 text bss stack s₁ s' ∧ T = sv39Translate s'.mem g := by
  obtain ⟨b', s', hinit, hl, rfl⟩ := h.process
  obtain ⟨g, hg, -, -, text, bss, stack, s₁, h⟩ := loadSteps_of_boot (sample_within (by decide))
    (sample_allocator _) hinit ⟨by decide, by decide⟩ hl
  rw [hg.satp, satpRoot_makeSatpSv39 hg.frame]
  exact ⟨g, _, text, bss, stack, s₁, s', h, rfl⟩

/-- Its text page, -/
theorem SampleProcess.userText {T : Translation} (h : SampleProcess T) :
    ∃ pa, T USER_TEXT_START = some (pa, leafFlags (PTE_R ||| PTE_X ||| PTE_U)) := by
  obtain ⟨g, s, text, bss, stack, s₁, s', hl, rfl⟩ := h.steps
  have hge : 0x400000 ≤ USER_TEXT_START.toNat := by decide
  obtain ⟨u, -, -, ht⟩ := hl.translates_text hge (by decide)
  exact ⟨_, ht⟩

/-- and the bytes of its `.bss` page. -/
theorem SampleProcess.userBss {T : Translation} (h : SampleProcess T) {i : Nat} (hi : i < 4096) :
    ∃ pa, T (byteAddr 0x401000 i) = some (pa, leafFlags (PTE_R ||| PTE_W ||| PTE_U)) := by
  obtain ⟨g, s, text, bss, stack, s₁, s', hl, rfl⟩ := h.steps
  have haddr : (byteAddr 0x401000 i).toNat = 0x401000 + i := toNat_byteAddr (show 0x401000 + i < 2 ^ 64 by omega)
  have hpages : imagePages 0x64 = 1 := by decide
  exact hl.translates_bss (by omega) (by omega)

end RvOs
