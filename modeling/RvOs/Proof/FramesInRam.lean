import RvOs.Proof.FrameRuns
import RvOs.Proof.WriteProtect

/-!
# The frames in RAM

The mapping code takes its frames from the allocator one call after the other
(`AllocRun`), so those it is given and those handed out later are the frames
of one run. They are all in the direct map exactly when the first one, past
the kernel image and the device tree, is not below RAM
(`pagingInit_framesReached_iff`).
-/

namespace RvOs

variable {platform : PlatformInfo} {sym : KernelSymbols} {b b' : BootState} {g : U64}

/-! ## The calls of the mapping code -/

/-- From `s` to `s'` the allocator is called some number of times. -/
def AllocRun (s s' : KState) : Prop := ∃ k, s'.allocator = allocMany k s.allocator

theorem AllocRun.refl (s : KState) : AllocRun s s := ⟨0, rfl⟩

/-- Memory is written. -/
theorem AllocRun.written (s : KState) (m : Mem) : AllocRun s { s with mem := m } := ⟨0, rfl⟩

/-- One call. -/
theorem AllocRun.one (s : KState) (m : Mem) : AllocRun s ⟨m, (physicalAllocPage s.allocator).2⟩ :=
  ⟨1, by rw [allocMany_succ, allocMany]⟩

theorem AllocRun.trans {s s₁ s' : KState} (h : AllocRun s s₁) (h' : AllocRun s₁ s') : AllocRun s s' := by
  obtain ⟨j, hj⟩ := h
  obtain ⟨k, hk⟩ := h'
  exact ⟨j + k, by rw [hk, hj, allocMany_add]⟩

/-- A result returned after the calls up to `s₁`. -/
theorem AllocRun.returned {α : Type} {r r' : α} {s s₁ s' : KState} (h : AllocRun s s₁)
    (hr : (pure (r, s₁) : Option (α × KState)) = some (r', s')) : AllocRun s s' := by
  cases hr
  exact h

section Calls

variable {V : View} {toPtr : U64 → Addr} {s s' : KState} {va pa flags size : U64} {root : Addr} {ok : Bool}

theorem nextTable_run {entry : Addr} {r : Option Addr} (h : nextTable V toPtr entry s = some (r, s')) :
    AllocRun s s' := by
  simp only [nextTable, Option.bind_eq_bind, Option.bind_eq_some_iff] at h
  obtain ⟨pte, -, h⟩ := h
  split at h
  · split at h
    · exact (AllocRun.one s s.mem).returned h
    · simp only [Option.bind_eq_some_iff] at h
      obtain ⟨m, -, m', -, h⟩ := h
      exact (AllocRun.one s m').returned h
  · split at h <;>
    · exact (AllocRun.refl s).returned h

theorem setLeaf_run {entry : Addr} (h : setLeaf V entry pa flags s = some (ok, s')) : AllocRun s s' := by
  simp only [setLeaf, Option.bind_eq_bind, Option.bind_eq_some_iff] at h
  obtain ⟨pte, -, h⟩ := h
  split at h
  · exact (AllocRun.refl s).returned h
  · simp only [Option.bind_eq_some_iff] at h
    obtain ⟨m, -, h⟩ := h
    exact (AllocRun.written s m).returned h

theorem mapFromLevel1_run {level1 : Addr} (h : mapFromLevel1 V toPtr level1 va pa flags s = some (ok, s')) :
    AllocRun s s' := by
  simp only [mapFromLevel1, Option.bind_eq_bind, Option.bind_eq_some_iff, Prod.exists] at h
  obtain ⟨r, s₁, hn, h⟩ := h
  have h₁ := nextTable_run hn
  cases r with
  | none =>
    exact h₁.returned h
  | some level0 => exact h₁.trans (setLeaf_run h)

theorem pagingMapVia_run (h : pagingMapVia V toPtr root va pa flags s = some (ok, s')) : AllocRun s s' := by
  rw [pagingMapVia] at h
  split at h
  · cases h; exact .refl s
  split at h
  · cases h; exact .refl s
  split at h
  · cases h; exact .refl s
  simp only [Option.bind_eq_bind, Option.bind_eq_some_iff, Prod.exists] at h
  obtain ⟨r, s₁, hn, h⟩ := h
  have h₁ := nextTable_run hn
  cases r with
  | none =>
    exact h₁.returned h
  | some level1 => exact h₁.trans (mapFromLevel1_run h)

theorem pageLoop_run {page : U64 → KState → Option (Bool × KState)}
    (hp : ∀ off s ok s', page off s = some (ok, s') → AllocRun s s') :
    ∀ (fuel : Nat) (off : U64) (s s' : KState), pageLoop page size fuel off s = some (ok, s') → AllocRun s s'
  | 0, _, _, _, h => by cases h
  | fuel + 1, off, s, s', h => by
    rw [pageLoop] at h
    split at h
    · simp only [Option.bind_eq_bind, Option.bind_eq_some_iff, Prod.exists] at h
      obtain ⟨ok₁, s₁, hs, h⟩ := h
      have h₁ := hp off s ok₁ s₁ hs
      split at h
      · exact h₁.trans (pageLoop_run hp fuel _ _ _ h)
      · exact h₁.returned h
    · cases h
      exact .refl s

theorem pagingMapRangeVia_run (h : pagingMapRangeVia V toPtr root va pa size flags s = some (ok, s')) :
    AllocRun s s' := by
  rw [pagingMapRangeVia] at h
  split at h
  · cases h
    exact .refl s
  · exact pageLoop_run (fun _ _ _ _ hp => pagingMapVia_run hp) _ _ _ _ h

theorem mapRangesEarly_run : ∀ (rs : List MapRange) (s s' : KState),
    mapRangesEarly root rs s = some (ok, s') → AllocRun s s'
  | [], s, s', h => by
    cases h
    exact .refl s
  | r :: rs, s, s', h => by
    simp only [mapRangesEarly, Option.bind_eq_bind, Option.bind_eq_some_iff, Prod.exists] at h
    obtain ⟨ok₁, s₁, hs, h⟩ := h
    have h₁ : AllocRun s s₁ := pagingMapRangeVia_run hs
    split at h
    · exact h₁.trans (mapRangesEarly_run rs _ _ h)
    · exact h₁.returned h

theorem pagingCreateRootTableVia_run (h : pagingCreateRootTableVia V toPtr s = some (root, s')) : AllocRun s s' := by
  simp only [pagingCreateRootTableVia, Option.bind_eq_bind] at h
  split at h
  · exact (AllocRun.one s s.mem).returned h
  · simp only [Option.bind_eq_some_iff] at h
    obtain ⟨m, -, h⟩ := h
    exact (AllocRun.one s m).returned h

/-- `paging_init` takes its frames by the first calls of the allocator. -/
theorem pagingInit_run (h : pagingInit sym platform b = some (ok, b')) : AllocRun b.toKState b'.toKState := by
  rw [pagingInit] at h
  simp only [Option.bind_eq_bind, Option.bind_eq_some_iff, Prod.exists] at h
  obtain ⟨root, s₀, hc, h⟩ := h
  have h₀ : AllocRun b.toKState s₀ := pagingCreateRootTableVia_run hc
  split at h
  · cases h
    exact h₀
  simp only [Option.bind_eq_some_iff, Prod.exists] at h
  obtain ⟨ok₁, s₁, hr, h⟩ := h
  have h₁ := h₀.trans (mapRangesEarly_run _ _ _ hr)
  split at h <;>
  · cases h
    exact h₁

end Calls

/-! ## The direct map -/

section Reach

variable (hw : PlatformWithin (2 ^ 64 - 4096) platform) (hram : platform.ramEnd ≤ 2 ^ 38)
  (hp : physicalPageAllocatorInit platform = (true, b.allocator))
  (h : pagingInit sym platform b = some (true, b'))

include hw hram hp h

/-- The allocator at boot, and the tables `paging_init` makes with its frames. -/
theorem boot_tables : AtBoot platform b.allocator ∧ AllocOk b.allocator ∧ ∃ g, KernelTables sym platform b b' g := by
  have hb := atBoot_of_init hw hp
  have hc := hb.current
  have he := hb.end_
  have hlt := hb.lt
  have hres : platform.reservedEnd ≤ 2 ^ 56 := by omega
  unfold PlatformInfo.reservedEnd at hres
  unfold PlatformInfo.ramEnd at hram
  have ha := allocOk_of_pagingInit ⟨by omega, by omega, by omega⟩ hp h
  exact ⟨hb, ha, pagingInit_ok ha h⟩

/-- The first frame is where the allocator starts: `paging_init` takes it for the root table. -/
theorem first_frame : frameOf b.allocator 0 = b.allocator.current ∧ b.allocator.current ≠ 0 := by
  obtain ⟨hb, ha, g, hg⟩ := boot_tables hw hram hp h
  have hle := hg.tables [] g (by simp) (tableAt_nil ..)
  have hfr := (hg.inv.tables.frame [] g (by simp) (tableAt_nil ..)).2
  have hend := hg.inv.alloc.le
  rw [hg.end_] at hend
  have hpos : 0 < b.allocator.frames := by
    unfold PhysicalPageAllocator.frames
    omega
  refine ⟨?_, fun h0 => ?_⟩
  · rw [frameOf_eq hb.aligned (Nat.le_of_lt hb.lt) hpos]
    simp [PhysicalPageAllocator.skip]
  · have := ha.pos
    rw [h0] at this
    exact absurd this (by decide)

/-- When every frame is in RAM the first one is. -/
theorem ramBase_le (hr : FramesReached platform b.allocator b'.mem b'.satp) :
    platform.ramBase.toNat ≤ b.allocator.current.toNat := by
  obtain ⟨hf, hne⟩ := first_frame hw hram hp h
  have := (hr 0 (by rw [hf]; exact hne)).1
  rwa [hf] at this

/-- A frame at or past the start of RAM is in RAM and in the direct map. -/
theorem frames_reached (hin : platform.ramBase.toNat ≤ b.allocator.current.toNat) :
    FramesReached platform b.allocator b'.mem b'.satp := by
  obtain ⟨hb, -, g, hg⟩ := boot_tables hw hram hp h
  have he := hb.end_
  have hf := frames_le (Nat.le_of_lt hb.lt)
  have hal := hb.aligned
  unfold Aligned at hal
  intro n hn
  rcases frameOf_cases hb.aligned (Nat.le_of_lt hb.lt) (by omega) n with ⟨hlt, hv⟩ | ⟨-, h0⟩
  · refine ⟨by omega, by omega, fun x hx => ⟨leafFlags (PTE_R ||| PTE_W), ?_, by decide, by decide⟩⟩
    have hxlt : x.toNat < platform.ramEnd := by omega
    refine hg.direct x (Nat.le_trans hram (by decide)) ⟨by omega, hxlt⟩ (.inr ?_)
    rw [toNat_physToVirt (by omega)]
    omega
  · exact absurd h0 hn

/-- Every frame of a run of the allocator, of which `paging_init` takes the
first `k`, is in RAM and in the direct map exactly when RAM starts at or
below the page where the allocator does. -/
theorem pagingInit_framesReached_iff : (∃ k, b'.allocator = allocMany k b.allocator) ∧
    (FramesReached platform b.allocator b'.mem b'.satp ↔
      platform.ramBase.toNat ≤ (platform.reservedEnd + 4095) / 4096 * 4096) := by
  rw [← (atBoot_of_init hw hp).current]
  exact ⟨pagingInit_run h, ramBase_le hw hram hp h, frames_reached hw hram hp h⟩

end Reach

theorem pagingInit_framesReached_sample : ∃ b',
    pagingInit sampleSymbols samplePlatform (sampleBoot fun _ => 0) = some (true, b') ∧
      (∃ k, b'.allocator = allocMany k (sampleBoot fun _ => 0).allocator) ∧
      FramesReached samplePlatform (sampleBoot fun _ => 0).allocator b'.mem b'.satp := by
  obtain ⟨-, b', -, -, h, -⟩ := sample_pagingInit fun _ => 0
  obtain ⟨hk, hiff⟩ :=
    pagingInit_framesReached_iff (sample_within (by decide)) (by decide) (sample_allocator _) h
  exact ⟨b', h, hk, hiff.mpr (by decide)⟩

/-- The sample platform with a bank of RAM past the kernel listed first. -/
def otherBank : PlatformInfo := { samplePlatform with ramBase := 0x80010000, ramSize := 0x10000 }

/-- The root table is below RAM there, and not in the direct map. -/
theorem otherBank_not_reached :
    physicalPageAllocatorInit otherBank = (true, (sampleBoot fun _ => 0).allocator) ∧
    ∃ b', pagingInit sampleSymbols otherBank (sampleBoot fun _ => 0) = some (true, b') ∧
      ¬ FramesReached otherBank (sampleBoot fun _ => 0).allocator b'.mem b'.satp := by
  have hp : physicalPageAllocatorInit otherBank = (true, ⟨0x80005000, 0x80020000⟩) := by decide
  have hs : (Outline.pagingInit sampleSymbols otherBank ⟨0x80005000, 0x80020000⟩).isSome = true := by
    decide +kernel
  obtain ⟨o, ho⟩ := Option.isSome_iff_exists.mp hs
  have ha : AllocOk ⟨0x80005000, 0x80020000⟩ := ⟨by decide, by decide, by decide⟩
  obtain ⟨b', g, h, -⟩ := Outline.pagingInit_ok (b := sampleBoot fun _ => 0) ha ho
  refine ⟨hp, b', h, fun hr => ?_⟩
  have hle := ramBase_le ⟨by decide, by decide, by decide⟩ (by decide) hp h hr
  exact absurd hle (by decide)

end RvOs
