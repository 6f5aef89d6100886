import RvOs.Proof.LoadOutline
import RvOs.Proof.RangeCorrect
import RvOs.Proof.TableShape

/-!
# A region of fresh frames

A call of `map_region` that returns true, through queries: its pages by their
place in the region (`RegionPages.get`), each with a frame of data, and the
frames consumed (`mapRegion_fresh`).
-/

namespace RvOs

variable {g : Addr} {r : MemoryRegion} {s s' : KState} {n : Nat} {ps : List UserPage}

/-- Page `j` of a region. -/
theorem RegionPages.get (h : RegionPages r n ps) {j : Nat} (hj : j < n) :
    ∃ u, ps[j]? = some u ∧ u ∈ ps ∧ u.page = vpnOf (r.start + pageOff j) ∧ u.flags = r.flags := by
  have hp := congrArg (fun l => l[j]?) h.pages
  simp only [List.getElem?_map, List.getElem?_range hj, Option.map_some, Option.map_eq_some_iff] at hp
  obtain ⟨u, hu, hpage⟩ := hp
  have hm := List.mem_of_getElem? hu
  exact ⟨u, hu, hm, hpage, h.flags u hm⟩

/-- A page of a region is one of its pages. -/
theorem RegionPages.page (h : RegionPages r n ps) {u : UserPage} (hu : u ∈ ps) :
    ∃ j < n, u.page = vpnOf (r.start + pageOff j) := by
  have hm := List.mem_map_of_mem (f := (·.page)) hu
  rw [h.pages, List.mem_map] at hm
  obtain ⟨j, hj, he⟩ := hm
  exact ⟨j, List.mem_range.mp hj, he.symm⟩

/-- The frame of page `j`. -/
def pageFrame (ps : List UserPage) (j : Nat) : Addr := (ps[j]?.map (·.frame)).getD 0

theorem pageFrame_eq {u : UserPage} {j : Nat} (h : ps[j]? = some u) : pageFrame ps j = u.frame := by
  rw [pageFrame, h]
  rfl

/-- Byte `i` of a region is of its page `i / 4096`. -/
theorem vpnOf_byte {va : U64} (ha : Aligned va) (i : Nat) :
    vpnOf (va + BitVec.ofNat 64 i) = vpnOf (va + pageOff (i / 4096)) := by
  have hoff : (BitVec.ofNat 64 (i % 4096)).toNat < 4096 := by
    rw [BitVec.toNat_ofNat]
    omega
  rw [← vpnOf_add_off ((aligned_add_pageOff va (i / 4096)).mpr ha) hoff, BitVec.add_assoc, ← BitVec.ofNat_add,
    Nat.div_add_mod]

section Region

variable (h : Loaded g s ps s') (hp : RegionPages r n ps) (hr : physToVirt g ≠ 0) (hv : InHalf r.start n)

include h hp hr hv

theorem Loaded.query_region (hf : FlagsOk r.flags) {i : Nat} (hi : i < 4096 * n) :
    pagingQuery .direct (physToVirt g) (r.start + BitVec.ofNat 64 i) s'.mem =
      some (some (pageFrame ps (i / 4096) + BitVec.ofNat 64 (i % 4096), leafFlags r.flags)) := by
  obtain ⟨u, hu, hm, hpage, hfl⟩ := hp.get (j := i / 4096) (by omega)
  have ht := h.translate hm (hfl ▸ hf) (hpage.trans (vpnOf_byte hv.aligned i).symm)
  rw [hfl, UserPage.addr, hv.offset hi, ← pageFrame_eq hu] at ht
  rw [pagingQuery_physToVirt hr, ht]

theorem Loaded.query_other {a : U64} (hc : Canonical a)
    (ha : ∀ i < 4096 * n, a ≠ r.start + BitVec.ofNat 64 i) :
    pagingQuery .direct (physToVirt g) a s'.mem = pagingQuery .direct (physToVirt g) a s.mem := by
  have hs : RvOs.space s'.mem g (vpnOf a) = RvOs.space s.mem g (vpnOf a) := by
    ext e
    rw [h.space]
    refine or_iff_left ?_
    rintro ⟨u, hu, hpage, -⟩
    obtain ⟨j, hj, hj'⟩ := hp.page hu
    -- `a` is a byte of page `j`
    have hin := vpnOf_inj hc (hv.canonical (i := 4096 * j) (by omega)) (hpage.trans hj')
    have hal := hv.aligned
    unfold Aligned at hal
    rw [hv.toNat_add (by omega)] at hin
    refine ha (a.toNat - r.start.toNat) (by omega) (BitVec.eq_of_toNat_eq ?_)
    rw [hv.toNat_add (by omega)]
    omega
  rw [pagingQuery_physToVirt hr, pagingQuery_physToVirt hr, translate_congr hs]

end Region

/-! ## Its frames -/

/-- The frame of a page is one that the allocator handed out. -/
theorem Loaded.handedOut (h : Loaded g s ps s') (ha : AllocOk s.allocator) {k : Nat}
    (hk : s'.allocator = allocMany k s.allocator) {u : UserPage} (hu : u ∈ ps) :
    HandedOut s.allocator s' u.frame := by
  obtain ⟨hfr, hle, hlt, -⟩ := h.data u hu
  rw [hk] at hlt
  obtain ⟨i, hi, hfi⟩ := handed_out ha hfr.aligned hle k hlt
  exact ⟨hfr.ne_zero, hfr.aligned, i, k, hi, hk, hfi⟩

/-- Different pages have different frames. -/
theorem Loaded.pageFrame_inj (h : Loaded g s ps s') (hp : RegionPages r n ps) {i j : Nat} (hi : i < n) (hj : j < n)
    (e : pageFrame ps i = pageFrame ps j) : i = j := by
  obtain ⟨u, hu, -⟩ := hp.get hi
  obtain ⟨u', hu', -⟩ := hp.get hj
  have hnd : (ps.map (·.frame)).Nodup := List.pairwise_map.mpr h.apart
  rw [pageFrame_eq hu, pageFrame_eq hu'] at e
  refine (List.getElem?_inj ?_ hnd).mp ?_
  · rw [List.length_map]
    exact (List.getElem?_eq_some_iff.mp hu).1
  · rw [List.getElem?_map, List.getElem?_map, hu, hu', Option.map_some, Option.map_some, e]

theorem Loaded.frame_zero (h : Loaded g s ps s') {u : UserPage} (hu : u ∈ ps) {i : Nat} (hi : i < 4096) :
    s'.mem (u.frame + BitVec.ofNat 64 i) = 0 := by
  have hal := (h.data u hu).frame.aligned
  have hlt := (h.data u hu).frame.lt
  unfold Aligned at hal
  refine h.zero u hu _ ?_
  rw [InFrame, BitVec.toNat_add, BitVec.toNat_ofNat]
  omega

/-- What `map_region` leaves when it returns true. -/
theorem mapRegion_fresh (g : Addr) (r : MemoryRegion) (s s' : KState) (h : KInv g s)
    (hhalf : r.start.toNat + r.size.toNat ≤ 2 ^ 38) (hf : FlagsOk r.flags)
    (hm : mapRegion .direct (physToVirt g) r s = some (true, s')) : ∃ frames, FreshRegion g r frames s s' := by
  have hr : physToVirt g ≠ 0 := fun h0 => by
    rw [mapRegion, if_pos h0] at hm
    cases hm
  obtain ⟨hva, hsz⟩ : Aligned r.start ∧ Aligned r.size := by
    by_contra ha
    rw [mapRegion_unaligned ha] at hm
    cases hm
  obtain ⟨k, hk⟩ := mapRegion_run hm
  obtain ⟨b, s'', n, ps, he, hl, hp, hn⟩ := mapRegion_loads h hr hf
  obtain ⟨rfl, rfl⟩ := Prod.mk.inj (Option.some.inj (he.symm.trans hm))
  obtain ⟨rfl, hcons⟩ := hn rfl
  unfold Aligned at hsz
  have hsize : r.size.toNat = 4096 * (r.size.toNat / 4096) := by omega
  have hv : InHalf r.start (r.size.toNat / 4096) := ⟨hva, .inl (by omega)⟩
  refine ⟨pageFrame ps, fun i hi => hl.query_region hp hr hv hf (by omega), fun j hj => ?_,
    fun i hi j hj e => hl.pageFrame_inj hp hi hj e, fun j hj => ?_, fun j hj i hi => ?_,
    fun a hc ha => hl.query_other hp hr hv hc fun i hi => ha i (by omega), hcons⟩
  · obtain ⟨u, hu, hm', -⟩ := hp.get hj
    rw [pageFrame_eq hu]
    exact hl.handedOut h.alloc hk hm'
  · obtain ⟨u, hu, hm', -⟩ := hp.get hj
    rw [pageFrame_eq hu]
    exact (hl.data u hm').data
  · obtain ⟨u, hu, hm', -⟩ := hp.get hj
    rw [pageFrame_eq hu]
    exact hl.frame_zero hm' hi

/-- A region of two pages on both sides of a table's end, under a root just created. -/
theorem mapRegion_fresh_root : ∃ s' frames,
    mapRegion .direct (physToVirt 0x80005000) ⟨0x7FF000, 0x2000, PTE_R ||| PTE_W⟩ freshRoot = some (true, s') ∧
      FreshRegion 0x80005000 ⟨0x7FF000, 0x2000, PTE_R ||| PTE_W⟩ frames freshRoot s' := by
  have hf : FlagsOk (PTE_R ||| PTE_W) := ⟨by decide, by decide⟩
  have ho : (Outline.userPages ⟨[], [], ⟨0x80006000, 0x80020000⟩⟩ 0x7FF000 2).isSome = true := by decide +kernel
  obtain ⟨o, ho⟩ := Option.isSome_iff_exists.mp ho
  have hr : physToVirt 0x80005000 ≠ 0 := by decide
  have hm : ∃ s', mapRegion .direct (physToVirt 0x80005000) ⟨0x7FF000, 0x2000, PTE_R ||| PTE_W⟩ freshRoot =
      some (true, s') ∧ o.Rep 0x80005000 s' :=
    Outline.mapRegion_ok hr hf (by decide) (by decide) Outline.freshRoot_rep ho
  obtain ⟨s', hm, -⟩ := hm
  obtain ⟨frames, h⟩ := mapRegion_fresh 0x80005000 ⟨0x7FF000, 0x2000, PTE_R ||| PTE_W⟩ freshRoot s' freshRoot_inv
    (by decide) hf hm
  exact ⟨s', frames, hm, h⟩

end RvOs
