import RvOs.Proof.MapCorrect

/-!
# Mapping a range of pages

The page loops of the source (`pageLoop_ok`, by induction on the fuel, with an
invariant over the pages done), and `paging_map_range` by it: when it returns
true the address space has gained exactly the leaves of the range, when it
returns false those of the pages before one of them (`pagingMapRangeVia_ok`).
-/

namespace RvOs

variable {root : Addr} {s s' s₁ : KState} {va pa flags size : U64} {o : U64} {n k : Nat}

theorem toNat_pageOff {j : Nat} (h : 4096 * j < 2 ^ 64) : (pageOff j).toNat = 4096 * j := by
  rw [BitVec.toNat_ofNat, Nat.mod_eq_of_lt h]

theorem pageOff_succ (j : Nat) : pageOff j + PAGE_SIZE = pageOff (j + 1) := by
  rw [pageOff, pageOff, Nat.mul_add, BitVec.ofNat_add]; rfl

theorem aligned_add_pageOff (x : U64) (j : Nat) : Aligned (x + pageOff j) ↔ Aligned x := by
  unfold Aligned
  rw [BitVec.toNat_add, BitVec.toNat_ofNat]
  omega

section Loop

variable {page : U64 → KState → Option (Bool × KState)} {I E : Nat → KState → Prop}

/-- A page loop over `k` pages: `I j` holds before page `j`, `E j` where the
body returns false at page `j`. -/
theorem pageLoop_ok (hsize : size.toNat = 4096 * k)
    (step : ∀ j < k, ∀ s, I j s → ∃ b s', page (pageOff j) s = some (b, s') ∧
      (b = true → I (j + 1) s') ∧ (b = false → E j s')) :
    ∀ (fuel j : Nat) (s : KState), j ≤ k → k < fuel + j → I j s →
      ∃ b s', pageLoop page size fuel (pageOff j) s = some (b, s') ∧
        (b = true → I k s') ∧ (b = false → ∃ j < k, E j s')
  | 0, j, s, hj, hf, _ => absurd hf (by omega)
  | fuel + 1, j, s, hj, hf, hI => by
    have hlt := size.isLt
    have hoff : (pageOff j).toNat = 4096 * j := toNat_pageOff (by omega)
    rw [pageLoop]
    by_cases hjk : j < k
    · obtain ⟨b, s₁, hp, ht, he⟩ := step j hjk s hI
      rw [if_pos (by rw [BitVec.lt_def]; omega), hp]
      cases b with
      | true =>
        obtain ⟨b, s', hl, h⟩ := pageLoop_ok hsize step fuel (j + 1) s₁ hjk (by omega) (ht rfl)
        refine ⟨b, s', ?_, h⟩
        rw [← pageOff_succ] at hl
        exact hl
      | false => exact ⟨false, s₁, rfl, by simp, fun _ => ⟨j, hjk, he rfl⟩⟩
    · have : j = k := by omega
      subst this
      exact ⟨true, s, if_neg (by rw [BitVec.lt_def]; omega), fun _ => hI, by simp⟩

variable (page I E) in
theorem pageLoop_zero (hsize : size.toNat = 4096 * k)
    (step : ∀ j < k, ∀ s, I j s → ∃ b s', page (pageOff j) s = some (b, s') ∧
      (b = true → I (j + 1) s') ∧ (b = false → E j s')) (h0 : I 0 s) :
    ∃ b s', pageLoop page size pageLoopFuel 0 s = some (b, s') ∧
      (b = true → I k s') ∧ (b = false → ∃ j < k, E j s') := by
  have := size.isLt
  exact pageLoop_ok hsize step pageLoopFuel 0 s (Nat.zero_le _) (by rw [pageLoopFuel]; omega) h0

end Loop

/-- Page `v` has leaf `e` among the first `n` pages of a range. -/
def RangeLeaf (va pa flags : U64) (n : Nat) (v : Vpn) (e : U64) : Prop :=
  ∃ j < n, v = vpnOf (va + pageOff j) ∧ e = pteFromPhysAddr (pa + pageOff j) (leafFlags flags)

theorem rangeLeaf_zero (v : Vpn) (e : U64) : ¬ RangeLeaf va pa flags 0 v e := fun ⟨_, h, _⟩ => by omega

theorem rangeLeaf_succ (v : Vpn) (e : U64) : RangeLeaf va pa flags (n + 1) v e ↔
    RangeLeaf va pa flags n v e ∨
      v = vpnOf (va + pageOff n) ∧ e = pteFromPhysAddr (pa + pageOff n) (leafFlags flags) := by
  constructor
  · rintro ⟨j, hj, h⟩
    rcases Nat.lt_succ_iff_lt_or_eq.mp hj with hj | rfl
    · exact .inl ⟨j, hj, h⟩
    · exact .inr h
  · rintro (⟨j, hj, h⟩ | h)
    · exact ⟨j, by omega, h⟩
    · exact ⟨n, by omega, h⟩

/-- The state `s'` has the leaves of `s` and those of the first `n` pages of a range. -/
structure RangeResult (root : Addr) (s : KState) (va pa flags : U64) (n : Nat) (s' : KState) : Prop where
  inv : KInv root s'
  grows : KGrows root s s'
  space : ∀ v e, RvOs.space s'.mem root v = some e ↔
    RvOs.space s.mem root v = some e ∨ RangeLeaf va pa flags n v e
  free : ∀ v e, RangeLeaf va pa flags n v e → RvOs.space s.mem root v = none

theorem RangeResult.zero (h : KInv root s) : RangeResult root s va pa flags 0 s :=
  ⟨h, .refl .., fun v e => by simp only [rangeLeaf_zero, or_false], fun v e hl => absurd hl (rangeLeaf_zero v e)⟩

/-- One page more. -/
theorem RangeResult.succ (h : RangeResult root s va pa flags n s₁) {m : Nat}
    (hm : MapResult root s₁ (vpnOf (va + pageOff n)) m
      (pteFromPhysAddr (pa + pageOff n) (leafFlags flags)) true s') :
    RangeResult root s va pa flags (n + 1) s' := by
  obtain ⟨hfree, -, hsp⟩ := hm.mapped rfl
  refine ⟨hm.inv, h.grows.trans hm.grows, fun v e => ?_, fun v e hl => ?_⟩
  · rw [hsp, rangeLeaf_succ, ← or_assoc, ← h.space]
    by_cases hv : v = vpnOf (va + pageOff n)
    · subst hv
      simp only [Function.update_self, hfree, Option.some.injEq, reduceCtorEq, true_and, false_or, eq_comm]
    · simp only [Function.update_of_ne hv, hv, false_and, or_false]
  · rcases (rangeLeaf_succ v e).mp hl with hl | ⟨rfl, -⟩
    · exact h.free v e hl
    · rcases hs : RvOs.space s.mem root (vpnOf (va + pageOff n)) with _ | e'
      · rfl
      · rw [h.grows.grows.space hs] at hfree
        cases hfree

/-- A page that could not be mapped. -/
theorem RangeResult.fail (h : RangeResult root s va pa flags n s₁) {v : Vpn} {m : Nat} {pte : U64}
    (hm : MapResult root s₁ v m pte false s') : RangeResult root s va pa flags n s' :=
  ⟨hm.inv, h.grows.trans hm.grows, fun v e => by rw [(hm.failed rfl).1, h.space], h.free⟩

variable (va pa) in
theorem pagingMapRangeVia_ok (h : KInv root s) (hr : root + o ≠ 0)
    (hn : (alignUp size PAGE_SIZE).toNat = 4096 * n) (hf : flags.toNat < 2 ^ 10) (hl : pteIsLeaf flags = true) :
    ∃ b s', pagingMapRangeVia (.offset o) (· + o) (root + o) va pa size flags s = some (b, s') ∧
      (b = true → RangeResult root s va pa flags n s' ∧ (n = 0 ∨ Aligned va ∧ Aligned pa)) ∧
      (b = false → ∃ k < n, RangeResult root s va pa flags k s' ∧
        (Aligned va → Aligned pa → Blocked root s' (vpnOf (va + pageOff k)))) := by
  rw [pagingMapRangeVia]
  by_cases hsz : size = 0
  · have hn0 : n = 0 := pages_zero (hsz ▸ hn)
    rw [if_pos hsz, hn0]
    exact ⟨true, s, rfl, fun _ => ⟨.zero h, .inl rfl⟩, by simp⟩
  rw [if_neg hsz]
  refine pageLoop_zero _
    (fun j s' => RangeResult root s va pa flags j s' ∧ (j = 0 ∨ Aligned va ∧ Aligned pa))
    (fun j s' => RangeResult root s va pa flags j s' ∧
      (Aligned va → Aligned pa → Blocked root s' (vpnOf (va + pageOff j)))) hn (fun j hj s₁ ⟨hI, _⟩ => ?_)
    ⟨RangeResult.zero h, .inl rfl⟩
  by_cases ha : Aligned va ∧ Aligned pa
  · obtain ⟨b, s', he, hm⟩ := pagingMapVia_ok (o := o) (pteIsValid_leaf hf)
      (pteIsLeaf_leaf hf hl) hI.inv hr ((aligned_add_pageOff va j).mpr ha.1)
      ((aligned_add_pageOff pa j).mpr ha.2)
    refine ⟨b, s', he, fun hb => ?_, fun hb => ?_⟩ <;> subst hb
    · exact ⟨hI.succ hm, .inr ha⟩
    · refine ⟨hI.fail hm, fun _ _ => ?_⟩
      exact pagingMapVia_blocked (pteIsValid_leaf hf) (pteIsLeaf_leaf hf hl) hI.inv hr
        ((aligned_add_pageOff va j).mpr ha.1) ((aligned_add_pageOff pa j).mpr ha.2) he
  · refine ⟨false, s₁, pagingMapVia_unaligned ?_, by simp, fun _ => ⟨hI, fun h₁ h₂ => absurd ⟨h₁, h₂⟩ ha⟩⟩
    rwa [aligned_add_pageOff, aligned_add_pageOff]

variable (va pa) in
theorem pagingMapRangeEarly_ok (h : KInv root s) (hr : root ≠ 0)
    (hn : (alignUp size PAGE_SIZE).toNat = 4096 * n) (hf : flags.toNat < 2 ^ 10) (hl : pteIsLeaf flags = true) :
    ∃ b s', pagingMapRangeEarly root va pa size flags s = some (b, s') ∧
      (b = true → RangeResult root s va pa flags n s' ∧ (n = 0 ∨ Aligned va ∧ Aligned pa)) ∧
      (b = false → ∃ k < n, RangeResult root s va pa flags k s' ∧
        (Aligned va → Aligned pa → Blocked root s' (vpnOf (va + pageOff k)))) := by
  have z : root + 0 = root := BitVec.add_zero root
  have := pagingMapRangeVia_ok (o := 0) va pa h (by rwa [z]) hn hf hl
  rwa [z, ← physToPtrEarly_eq] at this

/-! ## The addresses of a range -/

/-- A range of pages at `va` that stays in one half of the canonical addresses. -/
structure InHalf (va : U64) (n : Nat) : Prop where
  aligned : Aligned va
  half : va.toNat + 4096 * n ≤ 2 ^ 38 ∨ 2 ^ 64 - 2 ^ 38 ≤ va.toNat ∧ va.toNat + 4096 * n ≤ 2 ^ 64

/-- A canonical address of a page of a range is an address of the range, `x` bytes past its start. -/
theorem rangeLeaf_iff (hv : InHalf va n) {a : U64} (hc : Canonical a) (e : U64) :
    RangeLeaf va pa flags n (vpnOf a) e ↔ va.toNat ≤ a.toNat ∧ a.toNat < va.toNat + 4096 * n ∧
      e = pteFromPhysAddr (pa + pageOff ((a.toNat - va.toNat) / 4096)) (leafFlags flags) := by
  obtain ⟨hal, hh⟩ := hv
  unfold Aligned at hal
  have hadd : ∀ j < n, (va + pageOff j).toNat = va.toNat + 4096 * j := fun j hj => by
    rw [BitVec.toNat_add, toNat_pageOff (by omega)]; omega
  have hcan : ∀ j < n, Canonical (va + pageOff j) := fun j hj => by
    unfold Canonical; rw [hadd j hj]; omega
  constructor
  · rintro ⟨j, hj, hv, rfl⟩
    have := vpnOf_inj hc (hcan j hj) hv
    rw [hadd j hj] at this
    refine ⟨by omega, by omega, ?_⟩
    rw [show (a.toNat - va.toNat) / 4096 = j by omega]
  · rintro ⟨hle, hlt, rfl⟩
    have hj : (a.toNat - va.toNat) / 4096 < n := by omega
    refine ⟨_, hj, BitVec.eq_of_toNat_eq ?_, rfl⟩
    rw [vpnOf_toNat, vpnOf_toNat, hadd _ hj]
    omega

end RvOs
