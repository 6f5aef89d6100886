import RvOs.Proof.Range
import RvOs.Spec.Region

/-!
# User pages

`Loaded root s ps s'`: from `s` to `s'` exactly the user pages `ps` were
mapped, each to a zeroed frame of its own that is not a page table
(`DataFrame`). It composes (`Loaded.append`), and `map_region` is a run of
single pages (`mapRegion_ok`), which also says what frames it takes
(`Consumed`).
-/

namespace RvOs

variable {root f : Addr} {s s' s₁ : KState} {va flags : U64} {cur : Nat}

/-! ## Frames of data -/

/-- A frame handed out since `cur` that is not a page table. -/
structure DataFrame (root : Addr) (cur : Nat) (s' : KState) (f : Addr) : Prop where
  frame : IsFrame f
  le : cur ≤ f.toNat
  lt : f.toNat + 4096 ≤ s'.allocator.current.toNat
  data : ∀ p, p.length ≤ 2 → tableAt s'.mem root p ≠ some f

/-- What comes later takes other frames for its tables. -/
theorem DataFrame.grows (h : DataFrame root cur s₁ f) (g : KGrows root s₁ s') : DataFrame root cur s' f := by
  have hlt := h.lt; have hle := g.grows.le
  refine ⟨h.frame, h.le, by omega, fun p hp hf => ?_⟩
  rcases g.grows.fresh p f hp hf with hf | ⟨-, hf, -⟩
  · exact h.data p hp hf
  · omega

/-- and leaves its bytes alone. -/
theorem DataFrame.mem (h : DataFrame root cur s₁ f) (hi : KInv root s₁) (g : KGrows root s₁ s') {a : Addr}
    (ha : InFrame f a) : s'.mem a = s₁.mem a := by
  have hal := h.frame.aligned; have hlt := h.lt
  unfold Aligned at hal
  unfold InFrame at ha
  refine g.grows.mem a (.inl (by omega)) fun p t hp ht hin => ?_
  have hta := hi.tables.aligned hp ht
  unfold Aligned at hta
  unfold InFrame at hin
  obtain rfl : t = f := BitVec.eq_of_toNat_eq (by omega)
  exact h.data p hp ht

/-! ## Zeroed frames -/

/-- Memory after the first `n` bytes of a frame are zeroed. -/
def zeroPage (m : Mem) (f : Addr) (n : Nat) : Mem := fun a => if (a - f).toNat < n then 0 else m a

theorem zeroBytes_offset (o : U64) (m : Mem) (f : Addr) :
    ∀ n ≤ 2 ^ 64, zeroBytes (.offset o) (f + o) m n = some (zeroPage m f n)
  | 0, _ => by rw [zeroBytes]; congr 1
  | n + 1, hn => by
    rw [zeroBytes, zeroBytes_offset o m f n (by omega)]
    simp only [Option.bind_eq_bind, Option.bind_some]
    rw [BitVec.add_assoc, BitVec.add_comm o, ← BitVec.add_assoc, View.offset_store8]
    congr 1
    funext a
    have hx : a = f + BitVec.ofNat 64 n ↔ (a - f).toNat = n := by
      refine ⟨fun e => by rw [e, Mem.add_ofNat_sub f (by omega)], fun e => ?_⟩
      rw [← e, BitVec.ofNat_toNat, BitVec.setWidth_eq, BitVec.add_comm, BitVec.sub_add_cancel]
    simp only [Mem.write8, zeroPage, hx]
    by_cases h : (a - f).toNat = n
    · rw [if_pos h, if_pos (by omega)]
    · rw [if_neg h]
      exact if_congr (by omega) rfl rfl

theorem inFrame_iff (hf : Aligned f) {a : Addr} : (a - f).toNat < 4096 ↔ InFrame f a := by
  have := a.isLt; have := f.isLt
  unfold Aligned at hf
  rw [BitVec.toNat_sub]
  unfold InFrame
  omega

theorem zeroPage_frame (hf : Aligned f) (m : Mem) {a : Addr} (ha : InFrame f a) : zeroPage m f 4096 a = 0 := by
  rw [zeroPage, if_pos ((inFrame_iff hf).mpr ha)]

theorem zeroPage_other (hf : Aligned f) (m : Mem) {a : Addr} (ha : ¬ InFrame f a) : zeroPage m f 4096 a = m a := by
  rw [zeroPage, if_neg fun h => ha ((inFrame_iff hf).mp h)]

/-! ## Frames consumed -/

theorem Linked.refl (root : Addr) (s : KState) : Linked root s s [] :=
  ⟨.nil, fun p => iff_of_false List.not_mem_nil fun ⟨_, hn, hs⟩ => by rw [hn] at hs; cases hs⟩

theorem Linked.trans {l l' : List (List Idx)} (h : Linked root s s₁ l) (h' : Linked root s₁ s' l')
    (g : KGrows root s s₁) (g' : KGrows root s₁ s') : Linked root s s' (l ++ l') := by
  have keep {p : List Idx} (hp : p.length ≤ 2) {s s' : KState} (g : KGrows root s s')
      (hs : (tableAt s.mem root p).isSome) : (tableAt s'.mem root p).isSome := by
    obtain ⟨f, hf⟩ := Option.isSome_iff_exists.mp hs
    rw [g.grows.keep p f hp hf]
    rfl
  refine ⟨List.nodup_append.mpr ⟨h.nodup, h'.nodup, fun p hp p' hp' e => ?_⟩, fun p => ?_⟩
  · -- a table of the first part is there before the second
    obtain ⟨-, -, hs⟩ := (h.mem_iff p).mp hp
    obtain ⟨-, hn, -⟩ := (h'.mem_iff p').mp hp'
    rw [e, hn] at hs
    cases hs
  · rw [List.mem_append, h.mem_iff, h'.mem_iff]
    constructor
    · rintro (⟨hp, hn, hs⟩ | ⟨hp, hn, hs⟩)
      · exact ⟨hp, hn, keep hp g' hs⟩
      · refine ⟨hp, Option.not_isSome_iff_eq_none.mp fun hs' => ?_, hs⟩
        have := keep hp g hs'
        rw [hn] at this
        cases this
    · rintro ⟨hp, hn, hs⟩
      rcases h₁ : tableAt s₁.mem root p with _ | f
      · exact .inr ⟨hp, rfl, hs⟩
      · exact .inl ⟨hp, hn, rfl⟩

theorem Consumed.refl (root : Addr) (s : KState) : Consumed root s 0 s := ⟨[], .refl root s, trivial, rfl⟩

theorem Consumed.trans {j k : Nat} (h : Consumed root s j s₁) (h' : Consumed root s₁ k s') (g : KGrows root s s₁)
    (g' : KGrows root s₁ s') : Consumed root s (j + k) s' := by
  obtain ⟨l, hl, hsup, hal⟩ := h
  obtain ⟨l', hl', hsup', hal'⟩ := h'
  have e : j + k + (l ++ l').length = j + l.length + (k + l'.length) := by
    rw [List.length_append]
    omega
  rw [hal] at hsup' hal'
  refine ⟨l ++ l', hl.trans hl' g g', ?_, ?_⟩
  · rw [e, supplies_add]
    exact ⟨hsup, hsup'⟩
  · rw [hal', e, allocMany_add s.allocator (j + l.length)]

/-- A frame taken while the tables stay. -/
theorem Consumed.frame (ha : (physicalAllocPage s.allocator).1 ≠ 0)
    (ha' : s'.allocator = (physicalAllocPage s.allocator).2)
    (ht : ∀ p, p.length ≤ 2 → tableAt s'.mem root p = tableAt s.mem root p) : Consumed root s 1 s' := by
  refine ⟨[], ⟨.nil, fun p => iff_of_false List.not_mem_nil ?_⟩, ⟨ha, trivial⟩, ha'⟩
  rintro ⟨hp, hn, hs⟩
  rw [ht p hp, hn] at hs
  cases hs

/-- The tables missing on the path to `v`, by their paths. -/
def missingTables (m : Mem) (root : Addr) (v : Vpn) : List (List Idx) :=
  [[v.i2], [v.i2, v.i1]].filter fun p => (tableAt m root p).isNone

theorem missingTables_nodup (m : Mem) (root : Addr) (v : Vpn) : (missingTables m root v).Nodup :=
  List.Pairwise.filter _ (show List.Nodup _ by simp)

theorem mem_missingTables {m : Mem} {v : Vpn} {p : List Idx} :
    p ∈ missingTables m root v ↔ tableAt m root p = none ∧ (p = [v.i2] ∨ p = [v.i2, v.i1]) := by
  rw [missingTables, List.mem_filter, List.mem_cons, List.mem_singleton, Option.isNone_iff_eq_none, and_comm]

theorem length_missingTables (m : Mem) (root : Addr) (v : Vpn) :
    (missingTables m root v).length = missing m root v := by
  have hpre : (tableAt m root [v.i2, v.i1]).isSome → (tableAt m root [v.i2]).isSome := tableAt_prefix
  rw [missingTables, missing, List.filter_cons, List.filter_singleton]
  cases h2 : tableAt m root [v.i2] with
  | none =>
    have h1 : tableAt m root [v.i2, v.i1] = none := by
      rw [← Option.not_isSome_iff_eq_none]
      intro hs
      rw [h2] at hpre
      cases hpre hs
    rw [h1]
    rfl
  | some t =>
    cases tableAt m root [v.i2, v.i1] with
    | none => rfl
    | some t' => rfl

/-- A page mapped: the tables linked are those that were missing. -/
theorem MapResult.consumed {v : Vpn} {pte : U64} (h : MapResult root s v (missing s.mem root v) pte true s') :
    Consumed root s 0 s' := by
  have hal := h.allocs rfl
  have hsup := (h.mapped rfl).2.1
  have hp := h.paths rfl
  rw [← length_missingTables, ← Nat.zero_add (List.length _)] at hal hsup
  refine ⟨missingTables s.mem root v, ⟨missingTables_nodup .., fun p => ?_⟩, hsup, hal⟩
  rw [mem_missingTables]
  constructor
  · rintro ⟨hn, he⟩
    have hl : p.length ≤ 2 := by rcases he with rfl | rfl <;> simp
    exact ⟨hl, hn, (hp p hl).mpr (.inr he)⟩
  · rintro ⟨hl, hn, hs⟩
    refine ⟨hn, ((hp p hl).mp hs).resolve_left ?_⟩
    rw [hn]
    exact Bool.false_ne_true

/-! ## User pages -/

structure UserPage where
  page : Vpn
  frame : Addr
  flags : U64

/-- The leaf entry of a user page. -/
def UserPage.pte (u : UserPage) : U64 := pteFromPhysAddr u.frame (leafFlags u.flags)

/-- The pages `ps` are those mapped from `s` to `s'`. -/
structure Loaded (root : Addr) (s : KState) (ps : List UserPage) (s' : KState) : Prop where
  inv : KInv root s'
  grows : KGrows root s s'
  space : ∀ v e, RvOs.space s'.mem root v = some e ↔
    RvOs.space s.mem root v = some e ∨ ∃ u ∈ ps, v = u.page ∧ e = u.pte
  free : ∀ u ∈ ps, RvOs.space s.mem root u.page = none
  data : ∀ u ∈ ps, DataFrame root s.allocator.current.toNat s' u.frame
  apart : ps.Pairwise fun u u' => u.frame ≠ u'.frame
  zero : ∀ u ∈ ps, ∀ a, InFrame u.frame a → s'.mem a = 0

theorem Loaded.nil (h : KInv root s) : Loaded root s [] s :=
  ⟨h, .refl .., by simp, by simp, by simp, .nil, by simp⟩

theorem Loaded.append {ps ps' : List UserPage} (h₁ : Loaded root s ps s₁) (h₂ : Loaded root s₁ ps' s') :
    Loaded root s (ps ++ ps') s' := by
  have hle := h₁.grows.grows.le
  have hfree : ∀ u ∈ ps', RvOs.space s.mem root u.page = none := fun u hu => by
    have hn := h₂.free u hu
    rcases hs : RvOs.space s.mem root u.page with _ | e
    · rfl
    · rw [h₁.grows.grows.space hs] at hn; cases hn
  refine ⟨h₂.inv, h₁.grows.trans h₂.grows, fun v e => ?_, ?_, ?_, ?_, ?_⟩
  · rw [h₂.space, h₁.space, or_assoc]
    simp only [List.mem_append, or_and_right, exists_or]
  · rw [List.forall_mem_append]
    exact ⟨h₁.free, hfree⟩
  · rw [List.forall_mem_append]
    refine ⟨fun u hu => (h₁.data u hu).grows h₂.grows, fun u hu => ?_⟩
    obtain ⟨hf, hl, hlt, hd⟩ := h₂.data u hu
    exact ⟨hf, by omega, hlt, hd⟩
  · refine List.pairwise_append.mpr ⟨h₁.apart, h₂.apart, fun u hu u' hu' e => ?_⟩
    have hlt := (h₁.data u hu).lt
    have hge := (h₂.data u' hu').le
    rw [e] at hlt
    omega
  · rw [List.forall_mem_append]
    exact ⟨fun u hu a ha => ((h₁.data u hu).mem h₁.inv h₂.grows ha).trans (h₁.zero u hu a ha), h₂.zero⟩

/-- The body of `map_region` by the frame it gets. -/
theorem mapRegionPage_eq {V : View} {r : Addr} {region : MemoryRegion} {offset : U64} {g : Addr}
    {a' : PhysicalPageAllocator} {m : Mem} (e : physicalAllocPage s.allocator = (g, a')) (hg : g ≠ 0)
    (hz : zeroBytes V (physToVirt g) s.mem PAGE_SIZE.toNat = some m) :
    mapRegionPage V r region offset s = pagingMap V r (region.start + offset) g region.flags ⟨m, a'⟩ := by
  rw [mapRegionPage, e]
  simp only [if_neg hg, hz, Option.bind_eq_bind, Option.bind_some]

theorem mapRegionPage_zero {V : View} {r : Addr} {region : MemoryRegion} {offset : U64}
    {a' : PhysicalPageAllocator} (e : physicalAllocPage s.allocator = (0, a')) :
    mapRegionPage V r region offset s = some (false, { s with allocator := a' }) := by
  rw [mapRegionPage, e]
  simp only [ite_true]

theorem zeroBytes_direct (m : Mem) (f : Addr) :
    zeroBytes .direct (physToVirt f) m PAGE_SIZE.toNat = some (zeroPage m f 4096) :=
  zeroBytes_offset KERNEL_DIRECT_MAP_BASE m f 4096 (by decide)

/-- In `s₁` the frame `g` is handed out and zeroed. -/
structure Zeroed (root : Addr) (s : KState) (g : Addr) (s₁ : KState) : Prop where
  inv : KInv root s₁
  grows : KGrows root s s₁
  space : RvOs.space s₁.mem root = RvOs.space s.mem root
  tables : ∀ p, p.length ≤ 2 → tableAt s₁.mem root p = tableAt s.mem root p
  data : DataFrame root s.allocator.current.toNat s₁ g
  zero : ∀ a, InFrame g a → s₁.mem a = 0

/-- No table is in the next frame. -/
theorem HandsOut.zeroed (h : KInv root s) {g : Addr} {a' : PhysicalPageAllocator} (hg : HandsOut s.allocator g a') :
    Zeroed root s g ⟨zeroPage s.mem g 4096, a'⟩ := by
  have hal := hg.frame.aligned
  have hcur := hg.current
  have hle := hg.le
  obtain ⟨hg₁, ht₁, hs₁, hp₁⟩ := Grows.of_mem (zeroPage s.mem g 4096) a'.current.toNat h.tables (by omega)
    fun a ha => zeroPage_other hal _ (by unfold InFrame; unfold Aligned at hal; omega)
  refine ⟨⟨ht₁, hg.ok⟩, ⟨hg₁, hg.end_⟩, hs₁, hp₁, ⟨hg.frame, hle, hcur.ge, fun p hp hpg => ?_⟩,
    fun a ha => zeroPage_frame hal _ ha⟩
  rw [hp₁ p hp] at hpg
  exact h.tables.fresh hle p hp hpg

/-- The frame mapped. -/
theorem Zeroed.loaded {g : Addr} {v : Vpn} {n : Nat} (h : Zeroed root s g s₁)
    (hm : MapResult root s₁ v n (pteFromPhysAddr g (leafFlags flags)) true s') :
    Loaded root s [⟨v, g, flags⟩] s' := by
  obtain ⟨hfree, -, hsp⟩ := hm.mapped rfl
  rw [h.space] at hfree hsp
  refine ⟨hm.inv, h.grows.trans hm.grows, fun w e => ?_, by simpa using hfree, by simpa using h.data.grows hm.grows,
    List.pairwise_singleton .., fun u hu a ha => ?_⟩
  · rw [hsp]
    simp only [List.mem_singleton, exists_eq_left, UserPage.pte]
    by_cases hw : w = v
    · rw [hw, Function.update_self, hfree]
      simp [eq_comm]
    · rw [Function.update_of_ne hw]
      simp [hw]
  · rw [List.mem_singleton.mp hu] at ha
    rw [h.data.mem h.inv hm.grows ha]
    exact h.zero a ha

/-- The frame lost. -/
theorem Zeroed.failed {g : Addr} {v : Vpn} {n : Nat} {pte : U64} (h : Zeroed root s g s₁)
    (hm : MapResult root s₁ v n pte false s') : Loaded root s [] s' :=
  ⟨hm.inv, h.grows.trans hm.grows, fun v e => by rw [(hm.failed rfl).1, h.space]; simp, by simp, by simp, .nil, by simp⟩

/-- One page of `map_region`. -/
theorem mapRegionPage_ok (h : KInv root s) (hr : root + KERNEL_DIRECT_MAP_BASE ≠ 0) {region : MemoryRegion}
    (hf : FlagsOk region.flags) {offset : U64} (ha : Aligned (region.start + offset)) :
    ∃ b s', mapRegionPage .direct (root + KERNEL_DIRECT_MAP_BASE) region offset s = some (b, s') ∧
      (b = true → (∃ g, Loaded root s [⟨vpnOf (region.start + offset), g, region.flags⟩] s') ∧ Consumed root s 1 s' ∧
        ∃ n ≤ 3, s'.allocator = allocMany n s.allocator) ∧
      (b = false → Loaded root s [] s' ∧
        (space s.mem root (vpnOf (region.start + offset)) ≠ none ∨ ¬ supplies 3 s.allocator)) := by
  rcases physicalAllocPage_cases h.alloc with ⟨e, -⟩ | ⟨g, a', e, hg⟩
  · exact ⟨false, s, mapRegionPage_zero e, by simp, fun _ => ⟨.nil h, .inr (not_supplies_succ e 2)⟩⟩
  have hz := hg.zeroed h
  obtain ⟨b, s', he, hm⟩ := pagingMapVia_ok (o := KERNEL_DIRECT_MAP_BASE) (pteIsValid_leaf hf.1)
    (pteIsLeaf_leaf hf.1 hf.2) hz.inv hr ha hg.frame.aligned
  have hmiss := missing_le (zeroPage s.mem g 4096) root (vpnOf (region.start + offset))
  rw [mapRegionPage_eq e hg.frame.ne_zero (zeroBytes_direct ..)]
  refine ⟨b, s', he, ?_⟩
  cases b with
  | true =>
    have hc : Consumed root s 1 ⟨zeroPage s.mem g 4096, a'⟩ :=
      .frame (by rw [e]; exact hg.frame.ne_zero) (by rw [e]) hz.tables
    refine ⟨fun _ => ⟨⟨g, hz.loaded hm⟩, hc.trans hm.consumed hz.grows hm.grows, _, Nat.succ_le_succ hmiss, ?_⟩,
      fun hb => absurd hb.symm Bool.false_ne_true⟩
    rw [hm.allocs rfl, allocMany, e]
  | false =>
    refine ⟨fun hb => absurd hb Bool.false_ne_true, fun _ => ⟨hz.failed hm, ?_⟩⟩
    refine (hm.failed rfl).2.imp (fun hn => hz.space ▸ hn) fun hn hsup => hn (supplies_le hmiss ?_)
    have ha := hsup.2
    rwa [e] at ha

/-! ## Regions -/

/-- The user pages of the first `n` pages of a region. -/
structure RegionPages (region : MemoryRegion) (n : Nat) (ps : List UserPage) : Prop where
  pages : ps.map (·.page) = (List.range n).map fun j => vpnOf (region.start + pageOff j)
  flags : ∀ u ∈ ps, u.flags = region.flags

theorem RegionPages.snoc {region : MemoryRegion} {n : Nat} {ps : List UserPage} (h : RegionPages region n ps)
    (g : Addr) : RegionPages region (n + 1) (ps ++ [⟨vpnOf (region.start + pageOff n), g, region.flags⟩]) := by
  refine ⟨by rw [List.map_append, h.pages, List.range_succ, List.map_append]; rfl, ?_⟩
  rw [List.forall_mem_append]
  exact ⟨h.flags, by simp⟩

section Aligned

variable {V : View} {r : Addr} {region : MemoryRegion}

/-- `map_region` after its checks. -/
theorem mapRegion_eq (hr : r ≠ 0) (hva : Aligned region.start) (hsz : Aligned region.size) :
    mapRegion V r region s = pageLoop (mapRegionPage V r region) region.size pageLoopFuel 0 s := by
  rw [mapRegion, if_neg hr, if_neg (not_not.mpr ((aligned_iff _).mpr hva)),
    if_neg (not_not.mpr ((aligned_iff _).mpr hsz))]

theorem mapRegion_unaligned (h : ¬ (Aligned region.start ∧ Aligned region.size)) :
    mapRegion V r region s = some (false, s) := by
  rw [← aligned_iff, ← aligned_iff] at h
  rw [mapRegion]
  split
  · rfl
  split
  · rfl
  split
  · rfl
  rename_i h₁ h₂
  exact absurd ⟨not_not.mp h₁, not_not.mp h₂⟩ h

end Aligned

/-- `map_region` loads pages of its region, all of them if it returns true. -/
theorem mapRegion_loads (h : KInv root s) (hr : root + KERNEL_DIRECT_MAP_BASE ≠ 0) {region : MemoryRegion}
    (hf : FlagsOk region.flags) :
    ∃ b s' n ps, mapRegion .direct (root + KERNEL_DIRECT_MAP_BASE) region s = some (b, s') ∧
      Loaded root s ps s' ∧ RegionPages region n ps ∧
      (b = true → n = region.size.toNat / 4096 ∧ Consumed root s n s') := by
  by_cases ha : Aligned region.start ∧ Aligned region.size
  swap
  · exact ⟨false, s, 0, [], mapRegion_unaligned ha, .nil h, ⟨rfl, by simp⟩, by simp⟩
  obtain ⟨hva, hsz⟩ := ha
  rw [mapRegion_eq hr hva hsz]
  unfold Aligned at hsz
  have step : ∀ j < region.size.toNat / 4096, ∀ s₁,
      (∃ ps, Loaded root s ps s₁ ∧ RegionPages region j ps ∧ Consumed root s j s₁) →
      ∃ b s', mapRegionPage .direct (root + KERNEL_DIRECT_MAP_BASE) region (pageOff j) s₁ = some (b, s') ∧
        (b = true → ∃ ps, Loaded root s ps s' ∧ RegionPages region (j + 1) ps ∧ Consumed root s (j + 1) s') ∧
        (b = false → ∃ ps, Loaded root s ps s' ∧ RegionPages region j ps) := by
    rintro j - s₁ ⟨ps, h₁, hp, hc⟩
    obtain ⟨b, s', he, hone, hfail⟩ := mapRegionPage_ok h₁.inv hr hf ((aligned_add_pageOff _ j).mpr hva)
    refine ⟨b, s', he, fun hb => ?_, fun hb => ⟨ps, ?_, hp⟩⟩
    · obtain ⟨⟨g, hg⟩, hc₁, -⟩ := hone hb
      exact ⟨_, h₁.append hg, hp.snoc g, hc.trans hc₁ h₁.grows hg.grows⟩
    · simpa using h₁.append (hfail hb).1
  obtain ⟨b, s', he, ht, hfail⟩ := pageLoop_zero (mapRegionPage .direct (root + KERNEL_DIRECT_MAP_BASE) region)
    (fun j s₁ => ∃ ps, Loaded root s ps s₁ ∧ RegionPages region j ps ∧ Consumed root s j s₁)
    (fun j s₁ => ∃ ps, Loaded root s ps s₁ ∧ RegionPages region j ps)
    (show region.size.toNat = 4096 * _ by omega) step ⟨[], .nil h, ⟨rfl, by simp⟩, .refl root s⟩
  cases b with
  | true =>
    obtain ⟨ps, hl, hp, hc⟩ := ht rfl
    exact ⟨true, s', _, ps, he, hl, hp, fun _ => ⟨rfl, hc⟩⟩
  | false =>
    obtain ⟨j, -, ps, hl, hp⟩ := hfail rfl
    exact ⟨false, s', j, ps, he, hl, hp, by simp⟩

theorem mapRegion_ok (h : KInv root s) (hr : root + KERNEL_DIRECT_MAP_BASE ≠ 0) {region : MemoryRegion}
    (hf : FlagsOk region.flags)
    (hm : mapRegion .direct (root + KERNEL_DIRECT_MAP_BASE) region s = some (true, s')) :
    ∃ ps, Loaded root s ps s' ∧ RegionPages region (region.size.toNat / 4096) ps := by
  obtain ⟨b, s'', n, ps, he, hl, hp, hn⟩ := mapRegion_loads h hr hf
  rw [he] at hm
  obtain ⟨rfl, rfl⟩ := Prod.mk.inj (Option.some.inj hm)
  exact ⟨ps, hl, (hn rfl).1 ▸ hp⟩

/-- The regions of the loader, one after the other. -/
theorem mapRegions_ok (hr : root + KERNEL_DIRECT_MAP_BASE ≠ 0) {rs : List MemoryRegion} (h : KInv root s)
    (hf : ∀ r ∈ rs, FlagsOk r.flags)
    (hm : mapRegions .direct (root + KERNEL_DIRECT_MAP_BASE) rs s = some (true, s')) :
    ∃ pss : List (List UserPage), Loaded root s pss.flatten s' ∧
      List.Forall₂ (fun r ps => RegionPages r (r.size.toNat / 4096) ps) rs pss := by
  induction rs generalizing s with
  | nil =>
    rw [mapRegions, Option.some.injEq, Prod.mk.injEq] at hm
    obtain ⟨-, rfl⟩ := hm
    exact ⟨[], .nil h, .nil⟩
  | cons r rs ih =>
    obtain ⟨hr', hf'⟩ := List.forall_mem_cons.mp hf
    rw [mapRegions] at hm
    obtain ⟨⟨b, s₁⟩, he, hm⟩ := Option.bind_eq_some_iff.mp hm
    cases b with
    | false => simp at hm
    | true =>
      obtain ⟨ps, h₁, hp⟩ := mapRegion_ok h hr hr' he
      obtain ⟨pss, h₂, hps⟩ := ih h₁.inv hf' hm
      exact ⟨ps :: pss, h₁.append h₂, .cons hp hps⟩

end RvOs
