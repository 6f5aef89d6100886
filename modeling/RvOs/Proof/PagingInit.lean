import RvOs.Proof.Range
import RvOs.Spec.KernelMap

/-!
# `paging_init`

The ranges are mapped one after the other (`mapRangesEarly_ok`, by induction
on them), each on pages no earlier one has, and a `paging_init` that returns
true leaves tables whose leaves are exactly those of its seven ranges, all
in frames the allocator handed out (`pagingInit_tables`).
-/

namespace RvOs

variable {root : Addr} {s s' : KState} {sym : KernelSymbols} {platform : PlatformInfo} {b b' : BootState}

/-- Page `v` has leaf `e` in a range. -/
def MapRange.Leaf (r : MapRange) (v : Vpn) (e : U64) : Prop :=
  RangeLeaf r.virtualStart r.physicalStart r.flags r.pages v e

/-- The flags of a range are ten bits and those of a leaf. -/
def MapRange.FlagsOk (r : MapRange) : Prop := r.flags.toNat < 2 ^ 10 ∧ pteIsLeaf r.flags = true

theorem MapRange.toNat_alignUp (r : MapRange) : (alignUp r.size PAGE_SIZE).toNat = 4096 * r.pages := by
  have : (alignUp r.size PAGE_SIZE).toNat % 4096 = 0 := by
    rw [alignUp, Bits.toNat_and_not_low _ (k := 12) (by decide)]; omega
  rw [pages]; omega

/-- What mapping the ranges `rs` did. -/
structure RangesResult (root : Addr) (s : KState) (rs : List MapRange) (s' : KState) : Prop where
  space : ∀ v e, RvOs.space s'.mem root v = some e ↔
    RvOs.space s.mem root v = some e ∨ ∃ r ∈ rs, r.Leaf v e
  free : ∀ r ∈ rs, ∀ v e, r.Leaf v e → RvOs.space s.mem root v = none
  apart : rs.Pairwise fun r r' => ∀ v e e', r.Leaf v e → ¬ r'.Leaf v e'
  aligned : ∀ r ∈ rs, r.pages = 0 ∨ Aligned r.virtualStart ∧ Aligned r.physicalStart

/-- The first range, then the others. -/
theorem RangesResult.cons {r : MapRange} {rs : List MapRange} {s₁ : KState}
    (h : RangeResult root s r.virtualStart r.physicalStart r.flags r.pages s₁)
    (ha : r.pages = 0 ∨ Aligned r.virtualStart ∧ Aligned r.physicalStart)
    (hs : RangesResult root s₁ rs s') : RangesResult root s (r :: rs) s' := by
  refine ⟨fun v e => ?_, fun q hq v e hl => ?_, List.pairwise_cons.mpr ⟨fun q hq v e e' hl hl' => ?_, hs.apart⟩,
    List.forall_mem_cons.mpr ⟨ha, hs.aligned⟩⟩
  · rw [hs.space, h.space, or_assoc]
    simp only [List.mem_cons, exists_eq_or_imp]; rfl
  · rcases List.mem_cons.mp hq with rfl | hq
    · exact h.free v e hl
    · have hn := hs.free q hq v e hl
      rcases hv : RvOs.space s.mem root v with _ | e'
      · rfl
      · rw [h.grows.grows.space hv] at hn; cases hn
  · have hn := hs.free q hq v e' hl'
    rw [(h.space v e).mpr (.inr hl)] at hn
    cases hn

theorem mapRangesEarly_ok (hr : root ≠ 0) :
    ∀ (rs : List MapRange) (s : KState), KInv root s → (∀ r ∈ rs, r.FlagsOk) →
      ∃ ok s', mapRangesEarly root rs s = some (ok, s') ∧ KInv root s' ∧ KGrows root s s' ∧
        (ok = true → RangesResult root s rs s')
  | [], s, h, _ => ⟨true, s, rfl, h, .refl .., fun _ => ⟨by simp, by simp, by simp, by simp⟩⟩
  | r :: rs, s, h, hf => by
    obtain ⟨hr', hf'⟩ := List.forall_mem_cons.mp hf
    obtain ⟨ok, s₁, he, ht, hfail⟩ :=
      pagingMapRangeEarly_ok r.virtualStart r.physicalStart h hr r.toNat_alignUp hr'.1 hr'.2
    rw [mapRangesEarly, he]
    cases ok with
    | false =>
      obtain ⟨k, -, hk, -⟩ := hfail rfl
      exact ⟨false, s₁, rfl, hk.inv, hk.grows, by simp⟩
    | true =>
      obtain ⟨h₁, ha⟩ := ht rfl
      obtain ⟨ok, s', he', hi, hg, hres⟩ := mapRangesEarly_ok hr rs s₁ h₁.inv hf'
      exact ⟨ok, s', he', hi, h₁.grows.trans hg, fun hb => .cons h₁ ha (hres hb)⟩

theorem kernelRanges_flagsOk (sym : KernelSymbols) (platform : PlatformInfo) :
    ∀ r ∈ kernelRanges sym platform, r.FlagsOk := by
  simp only [kernelRanges, List.forall_mem_cons, MapRange.FlagsOk, MapRange.identity]
  decide

theorem toNat_makeSatpSv39 {g : Addr} (hg : IsFrame g) :
    (makeSatpSv39 g).toNat = 8 * 2 ^ 60 + g.toNat / 4096 := by
  have := hg.lt
  rw [makeSatpSv39, Bits.toNat_shiftLeft_or _ (by decide) (by
    rw [BitVec.toNat_ushiftRight, Nat.shiftRight_eq_div_pow]; omega),
    BitVec.toNat_ushiftRight, Nat.shiftRight_eq_div_pow]
  rfl

theorem satpRoot_makeSatpSv39 {g : Addr} (hg : IsFrame g) : satpRoot (makeSatpSv39 g) = g := by
  have := hg.lt; have := hg.aligned
  unfold Aligned at this
  apply BitVec.eq_of_toNat_eq
  rw [satpRoot, BitVec.toNat_shiftLeft, Bits.toNat_and_low _ (k := 44) (by decide), toNat_makeSatpSv39 hg,
    Nat.shiftLeft_eq]
  omega

theorem makeSatpSv39_mode {g : Addr} (hg : IsFrame g) : makeSatpSv39 g >>> 60 = SATP_MODE_SV39 := by
  have := hg.lt
  apply BitVec.eq_of_toNat_eq
  rw [BitVec.toNat_ushiftRight, toNat_makeSatpSv39 hg, Nat.shiftRight_eq_div_pow,
    show SATP_MODE_SV39.toNat = 8 from rfl]
  omega

/-- What a `paging_init` that returns true leaves, with the root table at `g`. -/
structure KernelTables (sym : KernelSymbols) (platform : PlatformInfo) (b b' : BootState) (g : Addr) : Prop where
  root : b'.root = physToVirt g
  satp : b'.satp = makeSatpSv39 g
  frame : IsFrame g
  inv : KInv g b'.toKState
  le : b.allocator.current.toNat ≤ b'.allocator.current.toNat
  end_ : b'.allocator.end_ = b.allocator.end_
  mem : ∀ a : Addr, a.toNat < b.allocator.current.toNat ∨ b'.allocator.current.toNat ≤ a.toNat → b'.mem a = b.mem a
  tables : ∀ p f, p.length ≤ 2 → tableAt b'.mem g p = some f → b.allocator.current.toNat ≤ f.toNat
  space : ∀ v e, RvOs.space b'.mem g v = some e ↔ ∃ r ∈ kernelRanges sym platform, r.Leaf v e
  apart : (kernelRanges sym platform).Pairwise fun r r' => ∀ v e e', r.Leaf v e → ¬ r'.Leaf v e'
  aligned : ∀ r ∈ kernelRanges sym platform, r.pages = 0 ∨ Aligned r.virtualStart ∧ Aligned r.physicalStart

/-- The root table, by the frame it gets. -/
theorem pagingCreateRootTable_eq {g : Addr} {a' : PhysicalPageAllocator}
    (e : physicalAllocPage s.allocator = (g, a')) (hne : g ≠ 0) :
    pagingCreateRootTable s = some (g, ⟨zeroTable s.mem g PAGE_TABLE_ENTRIES, a'⟩) := by
  have hz := pagingZeroTable_offset 0 s.mem g
  rw [show g + 0 = g from BitVec.add_zero g] at hz
  rw [pagingCreateRootTable, pagingCreateRootTableVia, e]
  simp only [if_neg hne, physToPtrEarly, View.phys, hz]
  rfl

/-- The root table, created with paging off. -/
theorem pagingCreateRootTable_ok (hle : s.allocator.current.toNat ≤ s.allocator.end_.toNat)
    (hend : s.allocator.end_.toNat ≤ 2 ^ 56) {r : Addr}
    (h : pagingCreateRootTable s = some (r, s')) (hr : r ≠ 0) :
    HandsOut s.allocator r s'.allocator ∧ s'.mem = zeroTable s.mem r PAGE_TABLE_ENTRIES ∧
      KInv r s' ∧ space s'.mem r = fun _ => none := by
  rw [pagingCreateRootTable, View.phys, physToPtrEarly_eq] at h
  obtain ⟨g, rfl, hg⟩ := pagingCreateRootTableVia_ok hle hend h hr
  rwa [show g + 0 = g from BitVec.add_zero g]

theorem pagingInit_tables (hle : b.allocator.current.toNat ≤ b.allocator.end_.toNat)
    (hend : b.allocator.end_.toNat ≤ 2 ^ 56) (h : pagingInit sym platform b = some (true, b')) :
    ∃ g, KernelTables sym platform b b' g := by
  rw [pagingInit] at h
  simp only [Option.bind_eq_bind, Option.bind_eq_some_iff, Prod.exists] at h
  obtain ⟨g, s₀, hc, h⟩ := h
  split at h
  · cases h
  rename_i hg0
  obtain ⟨hg, hm, hi, hs⟩ := pagingCreateRootTable_ok hle hend hc hg0
  have hm' : ∀ a, ¬ InFrame g a → s₀.mem a = b.mem a := fun a ha => by
    rw [hm]; exact zeroTable_apply hg.frame.aligned ha _ (Nat.le_refl _)
  obtain ⟨ok, s', he, hi', hgr, hres⟩ := mapRangesEarly_ok hg0 _ s₀ hi (kernelRanges_flagsOk sym platform)
  rw [he, Option.bind_some] at h
  cases ok with
  | false => cases h
  | true =>
    have hres := hres rfl
    cases h
    have hcur := hg.current; have hle := hg.le; have hal := hg.frame.aligned; have hgrle := hgr.grows.le
    unfold Aligned at hal
    refine ⟨g, rfl, rfl, hg.frame, hi', by simp only; omega, hgr.end_.trans hg.end_, fun a ha => ?_,
      fun p f hp hf => ?_, fun v e => ?_, hres.apart, hres.aligned⟩
    · have hng : ¬ InFrame g a := by unfold InFrame; simp only at ha; omega
      rw [← hm' a hng]
      refine hgr.grows.mem a (by simp only at ha; omega) fun p f _ hf => ?_
      rw [hm] at hf
      rwa [(tableAt_zeroTable hg.frame hf).2]
    · rcases hgr.grows.fresh p f hp hf with hf | hf
      · rw [hm] at hf
        rw [(tableAt_zeroTable hg.frame hf).2]; exact hle
      · omega
    · rw [hres.space, hs]
      simp

theorem pagingInit_ok (ha : AllocOk b.allocator) (h : pagingInit sym platform b = some (true, b')) :
    ∃ g, KernelTables sym platform b b' g := pagingInit_tables ha.le ha.lt h

end RvOs
