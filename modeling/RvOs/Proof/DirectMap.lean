import RvOs.Proof.KernelSpace
import RvOs.Proof.Outline
import RvOs.Spec.DirectMap

/-!
# The window of the direct map

The upper half holds 2³⁸ bytes, and `paging_init` maps RAM from
`KERNEL_DIRECT_MAP_BASE + ram_base` on whatever its addresses: the direct map
is in the upper half exactly when RAM ends at or below 2³⁸
(`pagingInit_directWindow_iff`), else it goes on in the lower half
(`wideRam_not_directWindow`).
-/

namespace RvOs

variable {root : Addr} {s s' : KState} {sym : KernelSymbols} {platform : PlatformInfo} {b b' : BootState}

/-! ## Ranges that were mapped -/

/-- The first iteration of a page loop that returns true. -/
theorem pageLoop_first {page : U64 → KState → Option (Bool × KState)} {size off : U64} {fuel : Nat} (hlt : off < size)
    (h : pageLoop page size fuel off s = some (true, s')) : ∃ s₁, page off s = some (true, s₁) := by
  cases fuel with
  | zero => cases h
  | succ fuel =>
    rw [pageLoop, if_pos hlt] at h
    simp only [Option.bind_eq_bind, Option.bind_eq_some_iff, Prod.exists] at h
    obtain ⟨ok, s₁, he, h⟩ := h
    cases ok with
    | true => exact ⟨s₁, he⟩
    | false => cases h

/-- A range is mapped at an aligned address, unless it is empty. -/
theorem pagingMapRangeEarly_aligned {va pa size flags : U64} (h0 : alignUp size PAGE_SIZE ≠ 0)
    (h : pagingMapRangeEarly root va pa size flags s = some (true, s')) : Aligned va ∧ Aligned pa := by
  rw [pagingMapRangeEarly, pagingMapRangeVia] at h
  have hne : size ≠ 0 := fun hz => h0 (by rw [hz]; rfl)
  rw [if_neg hne] at h
  have hlt : (0 : U64) < alignUp size PAGE_SIZE := (BitVec.pos_iff_ne_zero _).mpr h0
  obtain ⟨s₁, he⟩ := pageLoop_first hlt h
  have z : ∀ x : U64, x + 0 = x := BitVec.add_zero
  by_contra ha
  rw [z, z, pagingMapVia_unaligned ha] at he
  cases he

/-- So are all the ranges. -/
theorem mapRangesEarly_aligned : ∀ (rs : List MapRange) (s : KState),
    mapRangesEarly root rs s = some (true, s') →
      ∀ r ∈ rs, alignUp r.size PAGE_SIZE ≠ 0 → Aligned r.virtualStart ∧ Aligned r.physicalStart
  | [], _, _ => by simp
  | r :: rs, s, h => by
    simp only [mapRangesEarly, Option.bind_eq_bind, Option.bind_eq_some_iff, Prod.exists] at h
    obtain ⟨ok, s₁, he, h⟩ := h
    cases ok with
    | false => cases h
    | true =>
      exact List.forall_mem_cons.mpr ⟨fun h0 => pagingMapRangeEarly_aligned h0 he, mapRangesEarly_aligned rs s₁ h⟩

/-- The RAM that `paging_init` maps starts at a page. -/
theorem pagingInit_ramBase (h : pagingInit sym platform b = some (true, b'))
    (h0 : alignUp platform.ramSize PAGE_SIZE ≠ 0) : Aligned platform.ramBase := by
  rw [pagingInit] at h
  simp only [Option.bind_eq_bind, Option.bind_eq_some_iff, Prod.exists] at h
  obtain ⟨g, s₀, -, h⟩ := h
  split at h
  · cases h
  simp only [Option.bind_eq_some_iff, Prod.exists] at h
  obtain ⟨ok, s, he, h⟩ := h
  cases ok with
  | false => cases h
  | true => exact (mapRangesEarly_aligned _ _ he (directRange platform) (by simp [kernelRanges]) h0).2

/-! ## The window -/

theorem DirectWindow.empty (h : platform.ramSize = 0) : DirectWindow platform := by
  have hno : ∀ p, ¬ platform.InRam p := fun p hp => by
    have hsz : platform.ramSize.toNat = 0 := by rw [h]; rfl
    unfold PlatformInfo.InRam PlatformInfo.ramEnd at hp
    omega
  have hoff : ∀ off : U64, ¬ off < alignUp platform.ramSize PAGE_SIZE := fun off => by
    rw [h]
    exact BitVec.not_lt_zero
  exact ⟨fun p hp => absurd hp (hno p), fun p hp => absurd hp (hno p), fun p hp => absurd hp (hno p),
    fun p hp => absurd hp (hno p), fun p _ hp => absurd hp (hno p), fun off h => absurd h (hoff off),
    fun off h => absurd h (hoff off)⟩

/-- A byte of the direct map. -/
theorem toNat_directMap (hend : platform.ramEnd ≤ 2 ^ 38) (ha : platform.ramBase.toNat % 4096 = 0) {off : U64}
    (h : off < alignUp platform.ramSize PAGE_SIZE) :
    (physToVirt platform.ramBase + off).toNat = 2 ^ 64 - 2 ^ 38 + platform.ramBase.toNat + off.toNat ∧
      platform.ramBase.toNat + off.toNat < 2 ^ 38 := by
  unfold PlatformInfo.ramEnd at hend
  rw [BitVec.lt_def, toNat_alignUp (by omega)] at h
  have hv := toNat_physToVirt (p := platform.ramBase) (by omega)
  refine ⟨?_, by omega⟩
  rw [BitVec.toNat_add, hv]
  omega

theorem DirectWindow.of_le (hend : platform.ramEnd ≤ 2 ^ 38)
    (ha : alignUp platform.ramSize PAGE_SIZE ≠ 0 → Aligned platform.ramBase) : DirectWindow platform := by
  have hb : KERNEL_DIRECT_MAP_BASE.toNat = 2 ^ 64 - 2 ^ 38 := rfl
  have hv : ∀ p, platform.InRam p → (physToVirt p).toNat = 2 ^ 64 - 2 ^ 38 + p.toNat := fun p hp =>
    toNat_physToVirt (Nat.lt_of_lt_of_le hp.2 hend)
  have hal : ∀ off < alignUp platform.ramSize PAGE_SIZE, platform.ramBase.toNat % 4096 = 0 := fun off h =>
    ha fun h0 => BitVec.not_lt_zero (h0 ▸ h)
  refine ⟨fun p hp => ?_, fun p hp => ?_, fun p hp => ?_, fun p hp => ?_, fun p q hp hq h => ?_, fun off h => ?_,
    fun off h x hx => ?_⟩
  · rw [BitVec.le_def, hv p hp, hb]
    omega
  · rw [hv p hp, hb]
  · right
    rw [hv p hp]
    omega
  · exact BitVec.add_sub_cancel ..
  · have hlt := Nat.lt_of_lt_of_le hp.2 hend
    have hlt' := Nat.lt_of_lt_of_le hq.2 hend
    rw [hv p hp, hv q hq] at h
    exact BitVec.eq_of_toNat_eq (by omega)
  · obtain ⟨he, hlt⟩ := toNat_directMap hend (hal off h) h
    rw [he]
    omega
  · obtain ⟨he, hlt⟩ := toNat_directMap hend (hal off h) h
    have htop : USER_STACK_TOP.toNat ≤ 2 ^ 38 := by decide
    rw [he] at hx
    omega

/-- An address of RAM past the window: the base wraps. -/
theorem DirectWindow.ramEnd_le (h : DirectWindow platform) (h0 : platform.ramSize ≠ 0) : platform.ramEnd ≤ 2 ^ 38 := by
  by_contra hgt
  have hpos : platform.ramSize.toNat ≠ 0 := fun hz => h0 (BitVec.eq_of_toNat_eq hz)
  have hb : KERNEL_DIRECT_MAP_BASE.toNat = 2 ^ 64 - 2 ^ 38 := rfl
  have hram : platform.ramEnd = platform.ramBase.toNat + platform.ramSize.toNat := rfl
  obtain ⟨p, hp, hge⟩ : ∃ p, platform.InRam p ∧ 2 ^ 38 ≤ p.toNat := by
    by_cases hlow : platform.ramBase.toNat < 2 ^ 38
    · exact ⟨0x4000000000, ⟨Nat.le_of_lt hlow, Nat.lt_of_not_le hgt⟩, Nat.le_refl _⟩
    · exact ⟨platform.ramBase, ⟨Nat.le_refl _, by omega⟩, Nat.le_of_not_lt hlow⟩
  have he := h.no_wrap p hp
  have := (physToVirt p).isLt
  omega

/-- On the platforms that `paging_init` succeeds on, the direct map is in its
window exactly when RAM ends at or below 2³⁸. -/
theorem pagingInit_directWindow_iff (h : pagingInit sym platform b = some (true, b')) :
    DirectWindow platform ↔ platform.ramSize = 0 ∨ platform.ramBase.toNat + platform.ramSize.toNat ≤ 2 ^ 38 := by
  constructor
  · intro hw
    exact (Decidable.em _).imp_right hw.ramEnd_le
  · rintro (h0 | hend)
    · exact .empty h0
    · exact .of_le hend (pagingInit_ramBase h)

theorem pagingInit_directWindow_sample : ∃ b', pagingInit sampleSymbols samplePlatform (sampleBoot fun _ => 0) =
    some (true, b') ∧ DirectWindow samplePlatform := by
  obtain ⟨-, b', -, -, h, -⟩ := sample_pagingInit fun _ => 0
  exact ⟨b', h, (pagingInit_directWindow_iff h).mpr (.inr (by decide))⟩

/-- The first bank of RAM is 32 pages around 2³⁸; the kernel is in another. -/
def wideRam : PlatformInfo := { samplePlatform with ramBase := 0x3FFFFF0000 }

def wideBoot : BootState := { sampleBoot fun _ => 0 with allocator := ⟨0x80005000, 0x4000010000⟩ }

/-- `paging_init` succeeds, with half of the bank in the user program's half. -/
theorem wideRam_not_directWindow : physicalPageAllocatorInit wideRam = (true, wideBoot.allocator) ∧
    (∃ b', pagingInit sampleSymbols wideRam wideBoot = some (true, b')) ∧ ¬ DirectWindow wideRam := by
  have ha : AllocOk wideBoot.allocator := ⟨by decide, by decide, by decide⟩
  have hs : (Outline.pagingInit sampleSymbols wideRam wideBoot.allocator).isSome = true := by decide +kernel
  obtain ⟨o, ho⟩ := Option.isSome_iff_exists.mp hs
  obtain ⟨b', -, h, -⟩ := Outline.pagingInit_ok ha ho
  refine ⟨by decide, ⟨b', h⟩, fun hw => ?_⟩
  exact absurd (hw.ramEnd_le (by decide)) (by decide)

end RvOs
