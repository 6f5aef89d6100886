import RvOs.Proof.Range

/-!
# A range of pages, through queries

What `paging_map_range` and `paging_map_range_early` do to the translations,
also where they return false (`pagingMapRange_mapped`): the pages before the
one that is blocked are there, and nothing else has changed.
-/

namespace RvOs

variable {root : Addr} {s s' : KState} {va pa size flags : U64} {n k : Nat} {query : Query} {o : U64}

/-! ## The addresses of a range -/

theorem InHalf.mono (h : InHalf va n) (hk : k ≤ n) : InHalf va k := ⟨h.aligned, by have := h.half; omega⟩

theorem InHalf.toNat_add (h : InHalf va n) {i : Nat} (hi : i < 4096 * n) :
    (va + BitVec.ofNat 64 i).toNat = va.toNat + i := by
  have := h.half
  rw [BitVec.toNat_add, BitVec.toNat_ofNat]
  omega

theorem InHalf.canonical (h : InHalf va n) {i : Nat} (hi : i < 4096 * n) : Canonical (va + BitVec.ofNat 64 i) := by
  have := h.half
  have := h.toNat_add hi
  unfold Canonical
  omega

/-- The leaf of byte `i` of a range. -/
theorem InHalf.rangeLeaf (h : InHalf va n) {i : Nat} (hi : i < 4096 * n) (e : U64) :
    RangeLeaf va pa flags n (vpnOf (va + BitVec.ofNat 64 i)) e ↔
      e = pteFromPhysAddr (pa + pageOff (i / 4096)) (leafFlags flags) := by
  have ht := h.toNat_add hi
  rw [rangeLeaf_iff h (h.canonical hi), ht, Nat.add_sub_cancel_left]
  exact ⟨fun h => h.2.2, fun h => ⟨by omega, by omega, h⟩⟩

/-- An address that is not of the range is not of its pages. -/
theorem InHalf.not_rangeLeaf (h : InHalf va n) {a : U64} (hc : Canonical a)
    (ha : ∀ i < 4096 * n, a ≠ va + BitVec.ofNat 64 i) (e : U64) : ¬ RangeLeaf va pa flags n (vpnOf a) e := by
  rw [rangeLeaf_iff h hc]
  rintro ⟨hle, hlt, -⟩
  refine ha (a.toNat - va.toNat) (by omega) (BitVec.eq_of_toNat_eq ?_)
  rw [h.toNat_add (by omega)]
  omega

/-- The offset in its page of byte `i` of a range. -/
theorem InHalf.offset (h : InHalf va n) {i : Nat} (hi : i < 4096 * n) :
    (va + BitVec.ofNat 64 i) &&& (PAGE_SIZE - 1) = BitVec.ofNat 64 (i % 4096) := by
  have ht := h.toNat_add hi
  have hal := h.aligned
  unfold Aligned at hal
  apply BitVec.eq_of_toNat_eq
  rw [toNat_pageOffset, ht, BitVec.toNat_ofNat]
  omega

/-! ## Pages added -/

theorem translate_none {A : AddrSpace} {a : U64} (h : A (vpnOf a) = none) : A.translate a = none := by
  rw [AddrSpace.translate, h, Option.map_none]

theorem translate_congr {A B : AddrSpace} {a : U64} (h : A (vpnOf a) = B (vpnOf a)) :
    A.translate a = B.translate a := by
  rw [AddrSpace.translate, h, AddrSpace.translate]

/-- Without leaves of the range a page is as before. -/
theorem RangeResult.space_other (h : RangeResult root s va pa flags n s') {v : Vpn}
    (hn : ∀ e, ¬ RangeLeaf va pa flags n v e) : RvOs.space s'.mem root v = RvOs.space s.mem root v := by
  ext e
  rw [h.space]
  exact or_iff_left (hn e)

/-- The leaf of byte `i` of a range, as a translation. -/
theorem RangeResult.translate (h : RangeResult root s va pa flags n s') (hv : InHalf va n) (hp : Aligned pa)
    (hpa : pa.toNat + 4096 * n ≤ 2 ^ 56) (hf : flags.toNat < 2 ^ 10) {i : Nat} (hi : i < 4096 * n) :
    (RvOs.space s'.mem root).translate (va + BitVec.ofNat 64 i) =
      some (pa + BitVec.ofNat 64 i, leafFlags flags) := by
  have hl : RangeLeaf va pa flags n (vpnOf (va + BitVec.ofNat 64 i)) _ := (hv.rangeLeaf hi _).mpr rfl
  have hs := (h.space _ _).mpr (.inr hl)
  have hlt : (pa + pageOff (i / 4096)).toNat < 2 ^ 56 := by
    rw [BitVec.toNat_add, BitVec.toNat_ofNat]
    omega
  rw [AddrSpace.translate, hs, Option.map_some, leafAt_pte hf hlt ((aligned_add_pageOff pa _).mpr hp), hv.offset hi,
    BitVec.add_assoc, ← BitVec.ofNat_add, Nat.div_add_mod]

theorem RangeResult.pagesAdded (h : RangeResult root s va pa flags n s') (hv : n = 0 ∨ InHalf va n)
    (hp : Aligned pa) (hpa : pa.toNat + 4096 * n ≤ 2 ^ 56) (hf : flags.toNat < 2 ^ 10)
    (hq : ∀ a m, query a m = some ((RvOs.space m root).translate a)) :
    PagesAdded query va pa flags n s.mem s'.mem := by
  rcases hv with rfl | hv
  · refine ⟨fun i hi => by omega, fun i hi => by omega, fun a _ _ => ?_⟩
    rw [hq, hq, translate_congr (h.space_other (rangeLeaf_zero _))]
  · refine ⟨fun i hi => ?_, fun i hi => ?_, fun a hc ha => ?_⟩
    · have hfree := h.free _ _ ((hv.rangeLeaf hi _).mpr rfl)
      rw [hq, translate_none hfree]
    · rw [hq, h.translate hv hp hpa hf hi]
      rfl
    · rw [hq, hq, translate_congr (h.space_other (hv.not_rangeLeaf hc ha))]

/-- The page of a range that is blocked was mapped before the call. -/
theorem RangeResult.blocked (h : RangeResult root s va pa flags k s') (hv : InHalf va n) (hk : k < n)
    (hb : RvOs.space s'.mem root (vpnOf (va + pageOff k)) ≠ none) :
    ∃ e, RvOs.space s.mem root (vpnOf (va + pageOff k)) = some e := by
  obtain ⟨e, he⟩ := Option.ne_none_iff_exists'.mp hb
  refine ⟨e, ((h.space _ _).mp he).resolve_right fun ⟨j, hj, hvj, _⟩ => ?_⟩
  -- pages of the range are different
  have := vpnOf_inj (hv.canonical (i := 4096 * k) (by omega)) (hv.canonical (i := 4096 * j) (by omega)) hvj
  rw [hv.toNat_add (by omega), hv.toNat_add (by omega)] at this
  omega

theorem rangeMapped_of {ok : Bool} (ha : RangeArgs va pa size flags)
    (hq : ∀ a m, query a m = some ((space m root).translate a))
    (hall : ok = true → RangeResult root s va pa flags (pageCount size) s')
    (hpart : ok = false → ∃ k < pageCount size, RangeResult root s va pa flags k s' ∧
      Blocked root s' (vpnOf (va + pageOff k))) : RangeMapped query va pa size flags s ok s' := by
  have hv : pageCount size = 0 ∨ InHalf va (pageCount size) := by
    by_cases hs : size = 0
    · exact .inl (by rw [hs]; decide)
    · exact .inr ⟨ha.va_aligned, ha.half hs⟩
  have hfr := ha.frames
  refine ⟨fun hb => (hall hb).pagesAdded hv ha.pa_aligned hfr ha.flags_lt hq, fun hb => ?_⟩
  obtain ⟨k, hk, hres, hblock⟩ := hpart hb
  have hv := hv.resolve_left (by omega)
  refine ⟨k, hk, hres.pagesAdded (.inr (hv.mono hk.le)) ha.pa_aligned (by omega) ha.flags_lt hq, ?_⟩
  rcases hblock with hm | hn
  · obtain ⟨e, he⟩ := hres.blocked hv hk hm
    refine .inl ⟨leafAt e ((va + pageOff k) &&& (PAGE_SIZE - 1)), ?_⟩
    rw [hq, AddrSpace.translate, he, Option.map_some]
  · exact .inr (not_not.mp fun h => hn ⟨h, trivial⟩)

theorem pageCount_eq (h : size.toNat + 4095 < 2 ^ 64) : (alignUp size PAGE_SIZE).toNat = 4096 * pageCount size := by
  rw [toNat_alignUp h, pageCount, Nat.mul_comm]

/-- Both functions that map a range, over the tables below `g`. -/
theorem pagingMapRange_mapped (g : Addr) (s : KState) (va pa size flags : U64) (h : KInv g s)
    (ha : RangeArgs va pa size flags) :
    (∃ ok s', pagingMapRangeEarly g va pa size flags s = some (ok, s') ∧
      RangeMapped (pagingQueryEarly g) va pa size flags s ok s') ∧
    (physToVirt g ≠ 0 → ∃ ok s', pagingMapRange .direct (physToVirt g) va pa size flags s = some (ok, s') ∧
      RangeMapped (pagingQuery .direct (physToVirt g)) va pa size flags s ok s') := by
  have hroot := (h.tables.frame [] g (by simp) (tableAt_nil ..)).1.ne_zero
  have hn := pageCount_eq ha.size_lt
  refine ⟨?_, fun hr => ?_⟩
  · obtain ⟨ok, s', he, ht, hf⟩ := pagingMapRangeEarly_ok va pa h hroot hn ha.flags_lt ha.leaf
    refine ⟨ok, s', he, rangeMapped_of ha (pagingQueryEarly_eq hroot) (fun hb => (ht hb).1) fun hb => ?_⟩
    obtain ⟨k, hk, hres, hb⟩ := hf hb
    exact ⟨k, hk, hres, hb ha.va_aligned ha.pa_aligned⟩
  · obtain ⟨ok, s', he, ht, hf⟩ := pagingMapRangeVia_ok va pa h hr hn ha.flags_lt ha.leaf
    refine ⟨ok, s', he, rangeMapped_of ha (pagingQuery_physToVirt hr) (fun hb => (ht hb).1) fun hb => ?_⟩
    obtain ⟨k, hk, hres, hb⟩ := hf hb
    exact ⟨k, hk, hres, hb ha.va_aligned ha.pa_aligned⟩

/-- A range of a page and a half, under a root just created. -/
theorem pagingMapRange_mapped_root : ∃ ok s',
    pagingMapRange .direct (physToVirt 0x80005000) 0x400000 0x80010000 0x1800 (PTE_R ||| PTE_X) freshRoot =
        some (ok, s') ∧
      RangeMapped (pagingQuery .direct (physToVirt 0x80005000)) 0x400000 0x80010000 0x1800 (PTE_R ||| PTE_X)
        freshRoot ok s' :=
  (pagingMapRange_mapped 0x80005000 freshRoot 0x400000 0x80010000 0x1800 (PTE_R ||| PTE_X) freshRoot_inv
    ⟨by decide, by decide, fun _ => .inl (by decide), by decide, by decide, by decide, by decide⟩).2 (by decide)

end RvOs
