import RvOs.Proof.Outline
import RvOs.Spec.FrameRuns

/-!
# Runs of the frame allocator

Up to the last whole frame before the end, call `n` hands out frame `n`
(`frameOf_eq`), and from then on calls return 0 and change nothing
(`allocMany_exhausted`). Two platforms are left out: at an end of 2⁶⁴ − 4096
the check of the last call wraps, and page 0 cannot be told from a failure.
On all others the allocator is sound (`physicalAllocPage_sound_iff`).
-/

namespace RvOs

variable {platform : PlatformInfo} {a : PhysicalPageAllocator} {n : Nat}

/-- How many whole frames fit in the allocator's range. -/
def PhysicalPageAllocator.frames (a : PhysicalPageAllocator) : Nat := (a.end_.toNat - a.current.toNat) / 4096

theorem alignUp_of_aligned {x : U64} (h : Aligned x) : alignUp x 4096 = x := by
  have := x.isLt
  unfold Aligned at h
  apply BitVec.eq_of_toNat_eq
  rw [show (4096 : U64) = PAGE_SIZE from rfl, toNat_alignUp (by omega)]
  omega

/-- A call in a page-aligned state, whose frame does not wrap. -/
theorem physicalAllocPage_eq (ha : Aligned a.current) (hlt : a.current.toNat + 4096 < 2 ^ 64) :
    physicalAllocPage a = if a.end_.toNat < a.current.toNat + 4096 then (0, a)
      else (a.current, { a with current := a.current + 4096 }) := by
  have hal := alignUp_of_aligned ha
  have hn : (a.current + 4096).toNat = a.current.toNat + 4096 := by
    rw [BitVec.toNat_add]
    exact Nat.mod_eq_of_lt hlt
  simp only [physicalAllocPage, hal, BitVec.lt_def, hn]

/-- The state before call `n`, while frames are left. -/
def PhysicalPageAllocator.skip (a : PhysicalPageAllocator) (n : Nat) : PhysicalPageAllocator :=
  { a with current := a.current + BitVec.ofNat 64 (4096 * n) }

section Run

variable (ha : Aligned a.current) (hle : a.current.toNat ≤ a.end_.toNat)

section

include hle

theorem toNat_skip (hn : n ≤ a.frames) : (a.skip n).current.toNat = a.current.toNat + 4096 * n := by
  have := a.end_.isLt
  unfold PhysicalPageAllocator.frames at hn
  rw [PhysicalPageAllocator.skip, BitVec.toNat_add, BitVec.toNat_ofNat]
  omega

theorem frames_le : a.current.toNat + 4096 * a.frames ≤ a.end_.toNat ∧
    a.end_.toNat < a.current.toNat + 4096 * a.frames + 4096 := by
  unfold PhysicalPageAllocator.frames
  omega

end

include ha hle

/-- A call before the frames run out. -/
theorem physicalAllocPage_skip (hn : n < a.frames) :
    physicalAllocPage (a.skip n) = ((a.skip n).current, a.skip (n + 1)) := by
  have hc := toNat_skip hle (Nat.le_of_lt hn)
  have hf := frames_le hle
  have hlt := a.end_.isLt
  rw [physicalAllocPage_eq (by unfold Aligned at ha ⊢; omega) (by omega), if_neg]
  · simp only [PhysicalPageAllocator.skip, Nat.mul_succ, BitVec.ofNat_add, BitVec.add_assoc]
    rfl
  · show ¬ a.end_.toNat < _
    omega

/-- The first calls hand out one frame after the other. -/
theorem allocMany_eq (hn : n ≤ a.frames) : allocMany n a = a.skip n := by
  induction n with
  | zero => simp [allocMany, PhysicalPageAllocator.skip]
  | succ n ih => rw [allocMany_succ, ih (Nat.le_of_succ_le hn), physicalAllocPage_skip ha hle hn]

theorem frameOf_eq (hn : n < a.frames) : frameOf a n = (a.skip n).current := by
  rw [frameOf, allocMany_eq ha hle (Nat.le_of_lt hn), physicalAllocPage_skip ha hle hn]

variable (hend : a.end_.toNat + 4096 < 2 ^ 64)

include hend

/-- Past the last frame calls return 0 and nothing changes. -/
theorem allocMany_exhausted (hn : a.frames ≤ n) :
    allocMany n a = a.skip a.frames ∧ physicalAllocPage (allocMany n a) = (0, allocMany n a) := by
  have hlast : physicalAllocPage (a.skip a.frames) = (0, a.skip a.frames) := by
    have hc := toNat_skip hle (Nat.le_refl a.frames)
    have hf := frames_le hle
    rw [physicalAllocPage_eq (by unfold Aligned at ha ⊢; omega) (by omega), if_pos]
    show a.end_.toNat < _
    omega
  induction n, hn using Nat.le_induction with
  | base => rw [allocMany_eq ha hle (Nat.le_refl _)]; exact ⟨rfl, hlast⟩
  | succ n _ ih =>
    have e : allocMany (n + 1) a = a.skip a.frames := by rw [allocMany_succ, ih.2, ih.1]
    rw [e]
    exact ⟨rfl, hlast⟩

/-- What every call returns. -/
theorem frameOf_cases (n : Nat) :
    n < a.frames ∧ (frameOf a n).toNat = a.current.toNat + 4096 * n ∨ a.frames ≤ n ∧ frameOf a n = 0 := by
  rcases Nat.lt_or_ge n a.frames with hn | hn
  · refine .inl ⟨hn, ?_⟩
    rw [frameOf_eq ha hle hn, toNat_skip hle (Nat.le_of_lt hn)]
  · refine .inr ⟨hn, ?_⟩
    rw [frameOf, (allocMany_exhausted ha hle hend hn).2]

end Run

/-! ## Frames handed out once -/

theorem aligned_alignUp (x : U64) : Aligned (alignUp x 4096) := by
  unfold Aligned
  rw [show (4096 : U64) = PAGE_SIZE from rfl, alignUp, Bits.toNat_and_not_low _ (k := 12) (by decide)]
  omega

theorem frameOf_aligned (a : PhysicalPageAllocator) (n : Nat) : Aligned (frameOf a n) := by
  rw [frameOf, physicalAllocPage]
  split
  · exact (by decide : Aligned 0)
  · exact aligned_alignUp _

theorem frameOf_succ (a : PhysicalPageAllocator) (n : Nat) :
    frameOf a (n + 1) = frameOf (physicalAllocPage a).2 n := by
  rw [frameOf, frameOf, allocMany]

/-- A call that finds no room is repeated forever. -/
theorem allocMany_stuck (h : a.end_ < alignUp a.current 4096 + 4096) (n : Nat) : allocMany n a = a := by
  have hp : physicalAllocPage a = (0, a) := by
    simp only [physicalAllocPage, if_pos h]
  induction n with
  | zero => rfl
  | succ n ih => rw [allocMany_succ, ih, hp]

/-- Up to a call that returns a frame, each call hands out the page after the last one. -/
theorem frameOf_run (h : frameOf a n ≠ 0) : ∀ k ≤ n, frameOf a k = frameOf a 0 + BitVec.ofNat 64 (4096 * k) ∧
    (allocMany (k + 1) a).current = frameOf a k + 4096 := by
  -- no call up to the last one is stuck
  have hroom : ∀ k ≤ n, ¬ (allocMany k a).end_ < alignUp (allocMany k a).current 4096 + 4096 := by
    intro k hk hs
    have e : allocMany n a = allocMany k a := by
      rw [show n = k + (n - k) by omega, allocMany_add, allocMany_stuck hs]
    rw [frameOf, e, physicalAllocPage] at h
    simp only [if_pos hs, ne_eq, not_true_eq_false] at h
  have hstep : ∀ k ≤ n, frameOf a k = alignUp (allocMany k a).current 4096 ∧
      (allocMany (k + 1) a).current = frameOf a k + 4096 := by
    intro k hk
    rw [allocMany_succ, frameOf, physicalAllocPage]
    simp only [if_neg (hroom k hk)]
    trivial
  intro k
  induction k with
  | zero =>
    intro hk
    refine ⟨?_, (hstep 0 hk).2⟩
    simp
  | succ k ih =>
    intro hk
    obtain ⟨hf, hc⟩ := ih (by omega)
    refine ⟨?_, (hstep (k + 1) hk).2⟩
    have hal : Aligned (frameOf a k + 4096) := by
      have := frameOf_aligned a k
      unfold Aligned at this ⊢
      rw [BitVec.toNat_add, show (4096 : U64).toNat = 4096 from rfl]
      omega
    rw [(hstep (k + 1) hk).1, hc, alignUp_of_aligned hal, hf, Nat.mul_succ, BitVec.ofNat_add, BitVec.add_assoc]
    rfl

/-- An allocator that never hands out the page `r` hands out each frame once. -/
theorem frameOf_ne {r : U64} (hr : Aligned r) (hne : ∀ n, frameOf a n ≠ r) (h : frameOf a 0 ≠ 0) (n : Nat) :
    frameOf a (n + 1) ≠ frameOf a 0 := by
  intro e
  have hrun := frameOf_run (a := a) (n := n + 1) (by rw [e]; exact h)
  have hal := frameOf_aligned a 0
  unfold Aligned at hr hal
  -- after `n + 1` pages the run is where it was, so it has been everywhere
  have hwrap : 2 ^ 52 ≤ n + 1 := by
    have hn := congrArg BitVec.toNat ((hrun (n + 1) (Nat.le_refl _)).1.symm.trans e)
    have := (frameOf a 0).isLt
    rw [BitVec.toNat_add, BitVec.toNat_ofNat] at hn
    omega
  have hlt := (r - frameOf a 0).isLt
  have hsub := BitVec.toNat_sub r (frameOf a 0)
  refine hne ((r - frameOf a 0).toNat / 4096) ?_
  rw [(hrun _ (by omega)).1]
  apply BitVec.eq_of_toNat_eq
  have := r.isLt
  have := (frameOf a 0).isLt
  rw [BitVec.toNat_add, BitVec.toNat_ofNat, hsub]
  omega

/-! ## Soundness -/

/-- The allocator's range at boot. -/
structure AtBoot (platform : PlatformInfo) (a : PhysicalPageAllocator) : Prop where
  current : a.current.toNat = (platform.reservedEnd + 4095) / 4096 * 4096
  end_ : a.end_.toNat = platform.ramEnd
  lt : a.current.toNat < a.end_.toNat

theorem AtBoot.aligned (h : AtBoot platform a) : Aligned a.current := by
  have := h.current
  unfold Aligned
  omega

/-- A frame past what is reserved has none of it. -/
theorem not_reserved {x : Nat} (h : platform.reservedEnd ≤ x) : ¬ platform.Reserved x := by
  unfold PlatformInfo.reservedEnd at h
  rintro (⟨-, hx⟩ | ⟨-, hx⟩) <;> omega

section Sound

variable (h : AtBoot platform a)

include h

section Room

variable (hend : platform.ramEnd < 2 ^ 64 - 4096)

include hend

/-- What a call hands out. -/
theorem AtBoot.frameOf_ne_zero {n : Nat} (hn : frameOf a n ≠ 0) :
    n < a.frames ∧ (frameOf a n).toNat = a.current.toNat + 4096 * n := by
  have he := h.end_
  exact (frameOf_cases h.aligned (Nat.le_of_lt h.lt) (by omega) n).resolve_right fun hz => hn hz.2

variable (hpos : 0 < platform.reservedEnd ∨ platform.ramEnd < 4096)

include hpos

/-- No call hands out page 0. -/
theorem AtBoot.frames_le_of_zero {n : Nat} (hn : frameOf a n = 0) : a.frames ≤ n := by
  have hc := h.current
  have he := h.end_
  by_contra hlt
  rcases frameOf_cases h.aligned (Nat.le_of_lt h.lt) (by omega) n with ⟨-, hv⟩ | ⟨hn', -⟩
  · rw [hn] at hv
    have hv : 0 = a.current.toNat + 4096 * n := hv
    obtain ⟨hf₁, hf₂⟩ := frames_le (Nat.le_of_lt h.lt)
    omega
  · exact hlt hn'

/-- The calls on a platform with RAM below 2⁶⁴ − 4096, when page 0 is not to be handed out. -/
theorem AtBoot.sound : AllocatorSound platform a := by
  have hc := h.current
  have he := h.end_
  have hex := fun n => allocMany_exhausted h.aligned (Nat.le_of_lt h.lt) (by omega) (n := n)
  obtain ⟨hf₁, hf₂⟩ := frames_le (Nat.le_of_lt h.lt)
  have hlt := fun n => h.frameOf_ne_zero hend (n := n)
  have hge := fun n => h.frames_le_of_zero hend hpos (n := n)
  refine ⟨fun n hn => ?_, fun i j hij hi hj => ?_, fun n hn => ?_, fun n hn x hx _ => not_reserved ?_,
    fun n => ⟨?_, ?_⟩, fun n hn => ?_, fun n hn k hk => ?_⟩
  · have := (hlt n hn).2
    unfold Aligned
    omega
  · have := (hlt i hi).2
    have := (hlt j hj).2
    omega
  · have := hlt n hn
    omega
  · have := (hlt n hn).2
    omega
  · rintro h0 ⟨f, hfa, hfr, hprev, hfe⟩
    have hn := hge n h0
    -- the last frame handed out is below `f`, so `f` is past the end
    by_cases hk : a.frames = 0
    · omega
    · have hne : frameOf a (a.frames - 1) ≠ 0 := mt (hge _) (by omega)
      have hlast := hprev (a.frames - 1) (by omega) hne
      rw [(hlt _ hne).2] at hlast
      omega
  · intro hno
    by_contra h0
    have hv := hlt n h0
    refine hno ⟨(frameOf a n).toNat, by omega, by omega, fun i hi h0i => ?_, by omega⟩
    rw [(hlt i h0i).2]
    omega
  · rw [allocMany_succ, (hex n (hge n hn)).2]
  · have hk' : a.frames ≤ k := Nat.le_trans (hge n hn) hk
    rw [frameOf, (hex k hk').2]

end Room

/-- With RAM up to 2⁶⁴ − 4096 the call after the last frame hands out one past the end. -/
theorem AtBoot.not_sound_of_end (hend : platform.ramEnd = 2 ^ 64 - 4096) : ¬ AllocatorSound platform a := by
  have hle := Nat.le_of_lt h.lt
  have ha := h.aligned
  have he := h.end_
  obtain ⟨hf₁, hf₂⟩ := frames_le hle
  have hc : (a.skip a.frames).current = 0xFFFFFFFFFFFFF000 := by
    apply BitVec.eq_of_toNat_eq
    rw [toNat_skip hle (Nat.le_refl _)]
    unfold Aligned at ha
    show _ = 2 ^ 64 - 4096
    omega
  have hf : frameOf a a.frames = 0xFFFFFFFFFFFFF000 := by
    have hz : alignUp (0xFFFFFFFFFFFFF000 : U64) 4096 + 4096 = 0 := by decide
    rw [frameOf, allocMany_eq ha hle (Nat.le_refl _), physicalAllocPage, hc]
    simp only [hz]
    rfl
  intro hs
  have hw := hs.within a.frames (by rw [hf]; decide)
  rw [hf, hend] at hw
  exact absurd hw (by decide)

/-- With nothing reserved the first call returns page 0, though it succeeds. -/
theorem AtBoot.not_sound_of_zero (hz : platform.reservedEnd = 0) (hend : 4096 ≤ platform.ramEnd) :
    ¬ AllocatorSound platform a := by
  have hle := Nat.le_of_lt h.lt
  have hc := h.current
  have he := h.end_
  have hpos : 0 < a.frames := by
    unfold PhysicalPageAllocator.frames
    omega
  have hf : frameOf a 0 = 0 := by
    apply BitVec.eq_of_toNat_eq
    rw [frameOf_eq h.aligned hle hpos, toNat_skip hle (Nat.zero_le _)]
    show _ = 0
    omega
  intro hs
  have hu := congrArg (fun a => a.current.toNat) (hs.unchanged 0 hf)
  simp only [allocMany_eq h.aligned hle hpos, allocMany_eq h.aligned hle (Nat.zero_le _),
    toNat_skip hle hpos, toNat_skip hle (Nat.zero_le _)] at hu
  omega

end Sound

theorem atBoot_of_init (hw : PlatformWithin (2 ^ 64 - 4096) platform)
    (hp : physicalPageAllocatorInit platform = (true, a)) : AtBoot platform a := by
  obtain ⟨hc, he, hlt⟩ := physicalPageAllocatorInit_ok (Nat.le_refl _) hp hw.kernel hw.dtb hw.ram
  exact ⟨hc, he, hlt⟩

/-- The allocator is sound over every run exactly when RAM ends below
2⁶⁴ − 4096 and page 0 is not the first frame. -/
theorem physicalAllocPage_sound_iff (hw : PlatformWithin (2 ^ 64 - 4096) platform)
    (hp : physicalPageAllocatorInit platform = (true, a)) :
    AllocatorSound platform a ↔
      platform.ramEnd < 2 ^ 64 - 4096 ∧ (0 < platform.reservedEnd ∨ platform.ramEnd < 4096) := by
  have h := atBoot_of_init hw hp
  have hram : platform.ramEnd ≤ 2 ^ 64 - 4096 := hw.ram
  refine ⟨fun hs => ⟨?_, ?_⟩, fun ⟨hend, hpos⟩ => h.sound hend hpos⟩
  · by_contra hend
    exact h.not_sound_of_end (by omega) hs
  · by_contra hpos
    exact h.not_sound_of_zero (by omega) (by omega) hs

theorem physicalAllocPage_sound_sample : AllocatorSound samplePlatform (sampleBoot fun _ => 0).allocator :=
  (physicalAllocPage_sound_iff (sample_within (by decide)) (sample_allocator _)).mpr (by decide)

/-- The sample platform with RAM up to the last page of the address space. -/
def highPlatform : PlatformInfo := { samplePlatform with ramSize := 0xFFFFFFFF7FFFF000 }

theorem highPlatform_not_sound : PlatformWithin (2 ^ 64 - 4096) highPlatform ∧
    physicalPageAllocatorInit highPlatform = (true, ⟨0x80005000, 0xFFFFFFFFFFFFF000⟩) ∧
    ¬ AllocatorSound highPlatform ⟨0x80005000, 0xFFFFFFFFFFFFF000⟩ := by
  have hw : PlatformWithin (2 ^ 64 - 4096) highPlatform := ⟨by decide, by decide, by decide⟩
  have hp : physicalPageAllocatorInit highPlatform = (true, ⟨0x80005000, 0xFFFFFFFFFFFFF000⟩) := by decide
  exact ⟨hw, hp, (atBoot_of_init hw hp).not_sound_of_end (by decide)⟩

end RvOs
