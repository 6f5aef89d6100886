import RvOs.Proof.Load
import RvOs.Proof.KernelSpace

/-!
# Outlines of the loader

`map_region` follows its outline, a frame and a mapping for each page
(`Outline.mapRegions_ok`), and a loader whose regions are mapped returns true
(`processLoad_success`), as on `samplePlatform` for an image of one page.
-/

namespace RvOs

variable {root imageStart imageEnd : Addr} {s s' s₁ : KState}

namespace Outline

variable {o o' : Outline}

/-- The first `n` pages of a region, a zeroed frame and a mapping each. -/
def userPages (o : Outline) (va : U64) : Nat → Option Outline
  | 0 => some o
  | n + 1 => ((o.userPages va n).bind alloc).bind fun o => o.map (vpnOf (va + pageOff n))

def userRegions : List MemoryRegion → Outline → Option Outline
  | [], o => some o
  | r :: rs, o =>
    if Aligned r.start ∧ Aligned r.size then (o.userPages r.start (r.size.toNat / 4096)).bind (userRegions rs)
    else none

/-- A frame handed out and zeroed. -/
theorem Rep.zeroPage (h : o.Rep root s) {g : Addr} {a' : PhysicalPageAllocator}
    (hg : HandsOut s.allocator g a') :
    Rep { o with allocator := a' } root ⟨RvOs.zeroPage s.mem g 4096, a'⟩ := by
  have hz := hg.zeroed h.inv
  refine ⟨hz.inv, fun p hne hl => ?_, fun v => ?_, rfl⟩
  · rw [hz.tables p hl]
    exact h.tables p hne hl
  · rw [hz.space]
    exact h.pages v

theorem mapRegionPage_ok (hr : root + KERNEL_DIRECT_MAP_BASE ≠ 0) {region : MemoryRegion}
    (hf : FlagsOk region.flags) {offset : U64} (ha : Aligned (region.start + offset)) (h : o.Rep root s)
    (ho : o.alloc.bind (fun o => o.map (vpnOf (region.start + offset))) = some o') :
    ∃ s', mapRegionPage .direct (root + KERNEL_DIRECT_MAP_BASE) region offset s = some (true, s') ∧
      o'.Rep root s' := by
  obtain ⟨o₁, ha₁, ho⟩ := Option.bind_eq_some_iff.mp ho
  rw [alloc, ← h.allocator] at ha₁
  rcases physicalAllocPage_cases h.inv.alloc with ⟨e, -⟩ | ⟨g, a', e, hg⟩
  · rw [e, if_pos rfl] at ha₁; cases ha₁
  rw [e, if_neg hg.frame.ne_zero] at ha₁
  obtain rfl := Option.some.inj ha₁
  obtain ⟨s', he, h'⟩ := map_ok g hf.1 hf.2 hr ha hg.frame.aligned (h.zeroPage hg) ho
  refine ⟨s', ?_, h'⟩
  rw [RvOs.mapRegionPage_eq e hg.frame.ne_zero (zeroBytes_direct ..)]
  exact he

theorem mapRegion_ok (hr : root + KERNEL_DIRECT_MAP_BASE ≠ 0) {region : MemoryRegion} (hf : FlagsOk region.flags)
    (hva : Aligned region.start) (hsz : Aligned region.size) (h : o.Rep root s)
    (ho : o.userPages region.start (region.size.toNat / 4096) = some o') :
    ∃ s', mapRegion .direct (root + KERNEL_DIRECT_MAP_BASE) region s = some (true, s') ∧ o'.Rep root s' := by
  rw [mapRegion_eq hr hva hsz]
  unfold Aligned at hsz
  have hnext (j : Nat) : o.userPages region.start (j + 1) = (o.userPages region.start j).bind fun o =>
      o.alloc.bind fun o => o.map (vpnOf (region.start + pageOff j)) := Option.bind_assoc ..
  refine pageLoop_follows hnext (by omega) (fun j _ o₁ o₂ s₁ h₁ hmap => ?_) rfl h ho
  exact mapRegionPage_ok hr hf ((aligned_add_pageOff _ j).mpr hva) h₁ hmap

theorem mapRegions_ok (hr : root + KERNEL_DIRECT_MAP_BASE ≠ 0) {rs : List MemoryRegion}
    (hf : ∀ r ∈ rs, FlagsOk r.flags) (h : o.Rep root s) (ho : userRegions rs o = some o') :
    ∃ s', mapRegions .direct (root + KERNEL_DIRECT_MAP_BASE) rs s = some (true, s') ∧ o'.Rep root s' := by
  induction rs generalizing o s with
  | nil =>
    obtain rfl := Option.some.inj ho
    exact ⟨s, rfl, h⟩
  | cons r rs ih =>
    obtain ⟨hr', hf'⟩ := List.forall_mem_cons.mp hf
    rw [userRegions] at ho
    split at ho
    · rename_i ha
      obtain ⟨o₁, ho₁, ho⟩ := Option.bind_eq_some_iff.mp ho
      obtain ⟨s₁, he, h₁⟩ := mapRegion_ok hr hr' ha.1 ha.2 h ho₁
      obtain ⟨s', he', h'⟩ := ih hf' h₁ ho
      refine ⟨s', ?_, h'⟩
      rw [mapRegions, he]
      exact he'
    · cases ho

end Outline

theorem processLoad_of {V S : View} {r : Addr} {m : Mem} {l : ProcessMemoryLayout} (hr : r ≠ 0)
    (hl : processMemoryLayoutInit (imageEnd - imageStart) 0 0 PAGE_SIZE USER_STACK_SIZE = some l)
    (hm : mapRegions V r (loadRegions l) s = some (true, s₁))
    (hc : copyIntoRegion V S r l.text.start imageStart (imageEnd - imageStart) s₁.mem = some (true, m)) :
    processLoadInitialUserProgram V S r imageStart imageEnd s =
        some (some ⟨l.entry, l.stackTop⟩, { s₁ with mem := m }) := by
  rw [processLoadInitialUserProgram, if_neg hr]
  simp only [hl, hm, hc, Option.bind_eq_bind, Option.bind_some, Bool.not_true, Bool.false_eq_true, ite_false]
  rfl

variable (imageStart imageEnd) in
/-- Once its regions are mapped the loader returns true. -/
theorem processLoad_success (h : KInv root s) (hr : physToVirt root ≠ 0)
    (hsz : (imageEnd - imageStart).toNat ≤ 2 ^ 56) (hfit : Fits (imageEnd - imageStart))
    (hsrc : ∀ i < (imageEnd - imageStart).toNat, (imageStart + BitVec.ofNat 64 i).toNat < s.allocator.current.toNat ∧
      ∀ p f, p.length ≤ 2 → tableAt s.mem root p = some f → ¬ InFrame f (imageStart + BitVec.ofNat 64 i))
    (hm : mapRegions .direct (physToVirt root) (loadRegions (imageLayout (imageEnd - imageStart))) s =
      some (true, s₁)) :
    ∃ s', processLoadInitialUserProgram .direct .phys (physToVirt root) imageStart imageEnd s =
      some (some ⟨USER_TEXT_START, USER_STACK_TOP⟩, s') := by
  obtain ⟨pss, hloaded, hpages⟩ := mapRegions_ok hr h (loadRegions_flagsOk _) hm
  rcases hpages with _ | ⟨hpt, _⟩
  rename_i text pss _
  have hpt : RegionPages (textRegion (imageEnd - imageStart)) (imagePages (imageEnd - imageStart)) text :=
    textRegion_pages hfit ▸ hpt
  obtain ⟨m, hc, -, -⟩ := copyImage_ok hloaded (fun u hu => hpt.flags u hu ▸ flagsOk_text)
    (fun u hu => by rw [List.flatten_cons]; exact List.mem_append_left _ hu) hr hpt hfit hsrc
  exact ⟨_, processLoad_of hr ((layout_eq hsz).trans (if_pos hfit)) hm hc⟩

/-- The tables of `samplePlatform` and their outline. -/
theorem sample_tables (m : Mem) : ∃ o b' g,
    Outline.pagingInit sampleSymbols samplePlatform ⟨0x80005000, 0x80020000⟩ = some o ∧
      pagingInit sampleSymbols samplePlatform (sampleBoot m) = some (true, b') ∧
        KernelTables sampleSymbols samplePlatform (sampleBoot m) b' g ∧ physToVirt g ≠ 0 ∧ o.Rep g b'.toKState := by
  obtain ⟨o, b', g, ho, hinit, hroot, hrep⟩ := sample_pagingInit m
  have hcur : (sampleBoot m).allocator.current.toNat = 0x80005000 := rfl
  have hend : (sampleBoot m).allocator.end_.toNat = 0x80020000 := rfl
  obtain ⟨g', hg⟩ := pagingInit_tables (by omega) (by omega) hinit
  obtain rfl : g = g' := by
    have := hroot.symm.trans hg.root
    rwa [physToVirt, physToVirt, BitVec.add_left_inj] at this
  exact ⟨o, b', g, ho, hinit, hg, hg.root_ne (by omega), hrep⟩

/-- An image below the frames is below the free ones and apart from the tables. -/
theorem KernelTables.source_apart {sym : KernelSymbols} {platform : PlatformInfo} {b b' : BootState}
    (hg : KernelTables sym platform b b' root) (hs : imageStart.toNat ≤ imageEnd.toNat)
    (he : imageEnd.toNat ≤ b.allocator.current.toNat) :
    ∀ i < (imageEnd - imageStart).toNat, (imageStart + BitVec.ofNat 64 i).toNat < b'.allocator.current.toNat ∧
      ∀ p f, p.length ≤ 2 → tableAt b'.mem root p = some f → ¬ InFrame f (imageStart + BitVec.ofNat 64 i) := by
  intro i hi
  have hle := hg.le
  have hlt := imageEnd.isLt
  rw [BitVec.toNat_sub_of_le hs] at hi
  have hsrc : (imageStart + BitVec.ofNat 64 i).toNat = imageStart.toNat + i := by
    rw [BitVec.toNat_add, BitVec.toNat_ofNat]
    omega
  refine ⟨by omega, fun p f hp hf hin => ?_⟩
  have hge := hg.tables p f hp hf
  have hal := hg.inv.tables.aligned hp hf
  unfold Aligned at hal
  unfold InFrame at hin
  omega

variable (imageStart imageEnd) in
/-- An image of one page in `.data`, loaded on `samplePlatform`. -/
theorem sample_load (m : Mem) (hs : imageStart.toNat ≤ imageEnd.toNat) (he : imageEnd.toNat ≤ 0x80004000)
    (hn : imagePages (imageEnd - imageStart) = 1) : ∃ b' s',
    pagingInit sampleSymbols samplePlatform (sampleBoot m) = some (true, b') ∧
      processLoadInitialUserProgram .direct .phys b'.root imageStart imageEnd b'.toKState =
        some (some ⟨USER_TEXT_START, USER_STACK_TOP⟩, s') := by
  obtain ⟨o, b', g, ho, hinit, hg, hr, hrep⟩ := sample_tables m
  have hsz := BitVec.toNat_sub_of_le hs
  have hfit : Fits (imageEnd - imageStart) := by rw [Fits, hn]; decide
  have hcur : (sampleBoot m).allocator.current.toNat = 0x80005000 := rfl
  have hu : ((Outline.pagingInit sampleSymbols samplePlatform ⟨0x80005000, 0x80020000⟩).bind
      (Outline.userRegions (loadRegions (imageLayout 1)))).isSome = true := by decide +kernel
  obtain ⟨o', ho'⟩ := Option.isSome_iff_exists.mp hu
  have hu' := ho'
  rw [show Outline.pagingInit sampleSymbols samplePlatform ⟨0x80005000, 0x80020000⟩ = some o from ho,
    Option.bind_some] at hu'
  have hregions : loadRegions (imageLayout 1) = loadRegions (imageLayout (imageEnd - imageStart)) := by
    simp only [loadRegions, imageLayout, textRegion, bssRegion, hn, show imagePages 1 = 1 by decide]
  obtain ⟨s₁, hm, -⟩ := Outline.mapRegions_ok hr (loadRegions_flagsOk 1) hrep hu'
  rw [hregions] at hm
  obtain ⟨s', hs'⟩ := processLoad_success imageStart imageEnd hg.inv hr (by omega) hfit
    (hg.source_apart hs (by omega)) hm
  exact ⟨b', s', hinit, hg.root ▸ hs'⟩

end RvOs
