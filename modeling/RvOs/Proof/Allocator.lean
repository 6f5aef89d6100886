import RvOs.Proof.Pte

/-!
# The frame allocator

An allocator whose range excludes page 0 and ends at or below 2⁵⁶ either hands
out the next whole frame of its range or leaves its state alone
(`physicalAllocPage_cases`).
-/

namespace RvOs

theorem IsFrame.ne_zero {f : U64} (h : IsFrame f) : f ≠ 0 := by
  rintro rfl
  exact absurd h.pos (by decide)

/-- A call hands out the next frame, or returns 0 and changes nothing because no
whole frame is left; page 0 cannot be told from a failure. -/
theorem physicalAllocPage_range {a : PhysicalPageAllocator} (hl : a.current.toNat ≤ a.end_.toNat)
    (hu : a.end_.toNat ≤ 2 ^ 56) :
    (physicalAllocPage a = (0, a) ∧ a.end_.toNat < (a.current.toNat + 4095) / 4096 * 4096 + 4096) ∨
      ∃ f a', physicalAllocPage a = (f, a') ∧ a.current.toNat ≤ f.toNat ∧ (f ≠ 0 → HandsOut a f a') := by
  have hc : (alignUp a.current 4096).toNat = (a.current.toNat + 4095) / 4096 * 4096 :=
    toNat_alignUp (by omega)
  have hn : (alignUp a.current 4096 + 4096).toNat = (alignUp a.current 4096).toNat + 4096 := by
    rw [BitVec.toNat_add, hc]; exact Nat.mod_eq_of_lt (by simp; omega)
  simp only [physicalAllocPage, BitVec.lt_def, hn]
  generalize alignUp a.current 4096 = f at hc hn ⊢
  split
  · exact Or.inl ⟨rfl, by omega⟩
  · refine Or.inr ⟨f, _, rfl, by omega, fun hf => ?_⟩
    have hpos : f.toNat ≠ 0 := fun h => hf (BitVec.eq_of_toNat_eq h)
    refine ⟨⟨?_, by omega, by omega⟩, by omega, by omega, hn, rfl, ⟨?_, ?_, hu⟩⟩
    · unfold Aligned; omega
    · simp only [hn]; omega
    · simp only [hn]; omega

theorem physicalAllocPage_cases {a : PhysicalPageAllocator} (h : AllocOk a) :
    (physicalAllocPage a = (0, a) ∧ a.end_.toNat < (a.current.toNat + 4095) / 4096 * 4096 + 4096) ∨
      ∃ f a', physicalAllocPage a = (f, a') ∧ HandsOut a f a' := by
  have hp := h.pos
  refine (physicalAllocPage_range h.le h.lt).imp_right ?_
  rintro ⟨f, a', e, hle, hf⟩
  refine ⟨f, a', e, hf ?_⟩
  rintro rfl
  change _ ≤ 0 at hle
  omega

theorem not_supplies_succ {a a' : PhysicalPageAllocator} (h : physicalAllocPage a = (0, a')) (n : Nat) :
    ¬ supplies (n + 1) a := by
  simp only [supplies, h, ne_eq, not_true_eq_false, false_and, not_false_eq_true]

/-- The calls in order. -/
theorem allocMany_succ (a : PhysicalPageAllocator) (n : Nat) :
    allocMany (n + 1) a = (physicalAllocPage (allocMany n a)).2 := by
  induction n generalizing a with
  | zero => rw [allocMany, allocMany, allocMany]
  | succ n ih => rw [allocMany, ih, allocMany]

theorem allocMany_add (a : PhysicalPageAllocator) (j k : Nat) : allocMany (j + k) a = allocMany k (allocMany j a) := by
  induction k with
  | zero => rfl
  | succ k ih => rw [← Nat.add_assoc, allocMany_succ, allocMany_succ, ih]

theorem supplies_add (a : PhysicalPageAllocator) (j k : Nat) :
    supplies (j + k) a ↔ supplies j a ∧ supplies k (allocMany j a) := by
  induction j generalizing a with
  | zero => rw [Nat.zero_add, supplies, allocMany, true_and]
  | succ j ih => rw [Nat.succ_add, supplies, supplies, allocMany, ih, and_assoc]

theorem supplies_le {a : PhysicalPageAllocator} {j k : Nat} (hjk : j ≤ k) (h : supplies k a) : supplies j a := by
  obtain ⟨i, rfl⟩ := Nat.exists_eq_add_of_le hjk
  exact ((supplies_add a j i).mp h).1

/-- Whatever the first calls took, at most `j` frames. -/
theorem supplies_allocMany {a : PhysicalPageAllocator} {i j k : Nat} (hij : i ≤ j) (h : supplies (j + k) a) :
    supplies k (allocMany i a) := by
  have h := supplies_le (show i + k ≤ j + k by omega) h
  exact ((supplies_add a i k).mp h).2

/-- The initial allocator starts past the kernel image and the device tree and
ends with RAM. -/
theorem physicalPageAllocatorInit_ok {platform : PlatformInfo} {a : PhysicalPageAllocator} {limit : Nat}
    (hl : limit ≤ 2 ^ 64 - 4096) (h : physicalPageAllocatorInit platform = (true, a))
    (hk : platform.kernelEnd.toNat ≤ limit)
    (hd : platform.dtbAddr.toNat + platform.dtbSize.toNat ≤ limit)
    (hr : platform.ramBase.toNat + platform.ramSize.toNat ≤ limit) :
    a.current.toNat = (max platform.kernelEnd.toNat
        (platform.dtbAddr.toNat + platform.dtbSize.toNat) + 4095) / 4096 * 4096 ∧
      a.end_.toNat = platform.ramBase.toNat + platform.ramSize.toNat ∧
      a.current.toNat < a.end_.toNat := by
  have hde : (platform.dtbAddr + platform.dtbSize).toNat =
      platform.dtbAddr.toNat + platform.dtbSize.toNat := by
    rw [BitVec.toNat_add, Nat.mod_eq_of_lt (by omega)]
  have hre : (platform.ramBase + platform.ramSize).toNat =
      platform.ramBase.toNat + platform.ramSize.toNat := by
    rw [BitVec.toNat_add, Nat.mod_eq_of_lt (by omega)]
  have hmax : (maxU64 platform.kernelEnd (platform.dtbAddr + platform.dtbSize)).toNat =
      max platform.kernelEnd.toNat (platform.dtbAddr.toNat + platform.dtbSize.toNat) := by
    rw [maxU64]
    split <;> rename_i hlt <;> rw [BitVec.lt_def, hde] at hlt <;> omega
  simp only [physicalPageAllocatorInit, BitVec.le_def] at h
  split at h
  · cases h
  rename_i hle
  cases h
  simp only at hle ⊢
  have hal := toNat_alignUp (x := maxU64 platform.kernelEnd (platform.dtbAddr + platform.dtbSize))
    (by rw [hmax]; omega)
  rw [hmax] at hal
  exact ⟨hal, hre, by omega⟩

end RvOs
