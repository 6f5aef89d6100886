import RvOs.Proof.FramesInRam
import RvOs.Proof.Loaded
import RvOs.Spec.TableShape

/-!
# The tables stay a tree

One call, whatever it returns, keeps the invariant of the mapping code, only
adds to the tables, and maps with `map_region` nothing but frames of data
(`TableCall.run_ok`). A run then keeps `RunInv`, and what is a frame of data
stays one (`pageTables_shape`, by induction on the calls).
-/

namespace RvOs

variable {root g f : Addr} {s s' s₁ : KState} {a : PhysicalPageAllocator}

/-! ## Frames handed out -/

/-- The range of an allocator that hands out frames. -/
theorem allocMany_ok (ha : AllocOk a) (k : Nat) : AllocOk (allocMany k a) ∧
    (allocMany k a = a ∨ Aligned (allocMany k a).current) := by
  induction k with
  | zero => exact ⟨ha, .inl rfl⟩
  | succ k ih =>
    rw [allocMany_succ]
    rcases physicalAllocPage_cases ih.1 with ⟨e, -⟩ | ⟨f, a', e, hf⟩
    · rw [e]
      exact ih
    · have hal := hf.frame.aligned
      have hc := hf.current
      unfold Aligned at hal
      rw [e]
      refine ⟨hf.ok, .inr ?_⟩
      show a'.current.toNat % 4096 = 0
      omega

/-- Every page between where the allocator was and where it is was handed out. -/
theorem handed_out (ha : AllocOk a) (hf : Aligned f) (hle : a.current.toNat ≤ f.toNat) (k : Nat) :
    f.toNat + 4096 ≤ (allocMany k a).current.toNat → ∃ n < k, frameOf a n = f := by
  unfold Aligned at hf
  induction k with
  | zero =>
    intro hlt
    change f.toNat + 4096 ≤ a.current.toNat at hlt
    omega
  | succ k ih =>
    intro hlt
    obtain ⟨hok, hal⟩ := allocMany_ok ha k
    rw [allocMany_succ] at hlt
    rcases physicalAllocPage_cases hok with ⟨e, -⟩ | ⟨f', a', e, hf'⟩
    · rw [e] at hlt
      obtain ⟨n, hn, hfn⟩ := ih hlt
      exact ⟨n, by omega, hfn⟩
    · have hal' := hf'.frame.aligned
      have hc := hf'.current
      have hl := hf'.lt
      have hge := hf'.le
      unfold Aligned at hal'
      rw [e] at hlt
      change f.toNat + 4096 ≤ a'.current.toNat at hlt
      by_cases hfk : f.toNat + 4096 ≤ (allocMany k a).current.toNat
      · obtain ⟨n, hn, hfn⟩ := ih hfk
        exact ⟨n, by omega, hfn⟩
      · refine ⟨k, by omega, ?_⟩
        rw [frameOf, e]
        apply BitVec.eq_of_toNat_eq
        show f'.toNat = f.toNat
        rcases hal with hal | hal
        · rw [hal] at hl hge hfk
          omega
        · unfold Aligned at hal
          omega

/-! ## One call -/

/-- From `s` to `s'` every leaf added has a frame of its own that is no table. -/
def AddsData (root : Addr) (s s' : KState) : Prop :=
  ∀ v e, space s'.mem root v = some e → space s.mem root v = some e ∨
    DataFrame root s.allocator.current.toNat s' (physAddrFromPte e)

theorem Loaded.addsData {ps : List UserPage} (h : Loaded root s ps s') (hf : ∀ u ∈ ps, FlagsOk u.flags) :
    AddsData root s s' := by
  intro v e he
  rcases (h.space v e).mp he with he | ⟨u, hu, -, rfl⟩
  · exact .inl he
  · have hd := h.data u hu
    have hlt := hd.frame.lt
    refine .inr ?_
    rw [UserPage.pte, physAddrFromPte_pte (leafFlags_lt (hf u hu).1) hd.frame.aligned (by omega)]
    exact hd

theorem mapRegion_run {V : View} {r : Addr} {region : MemoryRegion} {ok : Bool}
    (h : mapRegion V r region s = some (ok, s')) : AllocRun s s' := by
  rw [mapRegion] at h
  split at h
  · cases h; exact .refl s
  split at h
  · cases h; exact .refl s
  split at h
  · cases h; exact .refl s
  refine pageLoop_run (fun off s ok s' hp => ?_) _ _ _ _ h
  simp only [mapRegionPage, Option.bind_eq_bind] at hp
  split at hp
  · exact (AllocRun.one s s.mem).returned hp
  · obtain ⟨m, -, hp⟩ := Option.bind_eq_some_iff.mp hp
    exact (AllocRun.one s m).trans (pagingMapVia_run hp)

/-- What a call does, whatever it returns. -/
structure CallResult (g : Addr) (c : TableCall) (s s' : KState) : Prop where
  inv : KInv g s'
  grows : KGrows g s s'
  run : AllocRun s s'
  region : ∀ r, c = .region r → AddsData g s s'

theorem CallResult.refl (c : TableCall) (h : KInv g s) : CallResult g c s s :=
  ⟨h, .refl .., .refl s, fun _ _ _ _ he => .inl he⟩

/-- With a null root nothing is done. -/
theorem TableCall.run_null (c : TableCall) (s : KState) : ∃ ok, c.run 0 s = some (ok, s) := by
  cases c with
  | map va pa flags => exact ⟨false, by rw [run, pagingMap, pagingMapVia, if_pos rfl]⟩
  | region r => exact ⟨false, by rw [run, mapRegion, if_pos rfl]⟩
  | mapRange va pa size flags =>
    rw [run, pagingMapRange, pagingMapRangeVia]
    by_cases hs : size = 0
    · exact ⟨true, by rw [if_pos hs]⟩
    rw [if_neg hs]
    have step : ∀ j < (MapRange.mk va pa size flags).pages, ∀ s₁, s₁ = s → ∃ b s',
        pagingMapVia .direct physToVirt 0 (va + pageOff j) (pa + pageOff j) flags s₁ = some (b, s') ∧
          (b = true → s' = s) ∧ (b = false → s' = s) := fun j _ s₁ e =>
      ⟨false, s, by rw [pagingMapVia, if_pos rfl, e], fun _ => rfl, fun _ => rfl⟩
    obtain ⟨b, s', he, ht, hf⟩ := pageLoop_zero
      (fun mapped => pagingMapVia .direct physToVirt 0 (va + mapped) (pa + mapped) flags)
      (fun _ s₁ => s₁ = s) (fun _ s₁ => s₁ = s) (MapRange.toNat_alignUp ⟨va, pa, size, flags⟩) step rfl
    have hs' : s' = s := by
      cases b with
      | true => exact ht rfl
      | false => exact (hf rfl).elim fun _ h => h.2
    rw [hs'] at he
    exact ⟨b, he⟩

/-- A call, whatever it returns. -/
theorem TableCall.run_ok {c : TableCall} (hf : c.FlagsOk) (h : KInv g s) :
    ∃ ok s', c.run (physToVirt g) s = some (ok, s') ∧ CallResult g c s s' := by
  by_cases hr : physToVirt g = 0
  · rw [hr]
    obtain ⟨ok, he⟩ := c.run_null s
    exact ⟨ok, s, he, .refl c h⟩
  cases c with
  | map va pa flags =>
    by_cases ha : Aligned va ∧ Aligned pa
    · obtain ⟨ok, s', he, hm⟩ := pagingMapVia_ok (o := KERNEL_DIRECT_MAP_BASE) (pteIsValid_leaf hf.1)
        (pteIsLeaf_leaf hf.1 hf.2) h hr ha.1 ha.2
      rw [run, pagingMap]
      exact ⟨ok, s', he, hm.inv, hm.grows, pagingMapVia_run he, nofun⟩
    · rw [run, pagingMap]
      exact ⟨false, s, pagingMapVia_unaligned ha, .refl _ h⟩
  | mapRange va pa size flags =>
    obtain ⟨ok, s', he, ht, hfail⟩ := pagingMapRangeVia_ok (o := KERNEL_DIRECT_MAP_BASE) va pa h hr
      (MapRange.toNat_alignUp ⟨va, pa, size, flags⟩) hf.1 hf.2
    rw [run, pagingMapRange]
    refine ⟨ok, s', he, ?_, ?_, pagingMapRangeVia_run he, nofun⟩
    · cases ok with
      | true => exact (ht rfl).1.inv
      | false => exact (hfail rfl).elim fun _ hk => hk.2.1.inv
    · cases ok with
      | true => exact (ht rfl).1.grows
      | false => exact (hfail rfl).elim fun _ hk => hk.2.1.grows
  | region r =>
    obtain ⟨ok, s', n, ps, he, hl, hp, -⟩ := mapRegion_loads h hr hf
    rw [run]
    exact ⟨ok, s', he, hl.inv, hl.grows, mapRegion_run he, fun _ _ =>
      hl.addsData fun u hu => by rw [hp.flags u hu]; exact hf⟩

/-! ## Runs -/

/-- What holds of the tables over a run from the allocator `a`. -/
structure RunInv (a : PhysicalPageAllocator) (g : Addr) (s : KState) : Prop where
  inv : KInv g s
  run : ∃ k, s.allocator = allocMany k a
  le : a.current.toNat ≤ s.allocator.current.toNat
  above : ∀ p f, p.length ≤ 2 → tableAt s.mem g p = some f → a.current.toNat ≤ f.toNat

theorem RunInv.step {c : TableCall} (h : RunInv a g s) (hc : CallResult g c s s') : RunInv a g s' := by
  have hle := h.le
  refine ⟨hc.inv, ?_, Nat.le_trans hle hc.grows.grows.le, fun p f hp hf => ?_⟩
  · obtain ⟨j, hj⟩ := h.run
    obtain ⟨k, hk⟩ := hc.run
    exact ⟨j + k, by rw [hk, hj, allocMany_add]⟩
  · rcases hc.grows.grows.fresh p f hp hf with hf | ⟨-, hf, -⟩
    · exact h.above p f hp hf
    · omega

/-- The root table, created before paging is on. -/
theorem RunInv.create (ha : AllocOk s.allocator) (h : pagingCreateRootTable s = some (g, s')) (hg : g ≠ 0) :
    RunInv s.allocator g s' := by
  obtain ⟨hh, hm, hi, -⟩ := pagingCreateRootTable_ok ha.le ha.lt h hg
  have hle := hh.le
  have hc := hh.current
  refine ⟨hi, pagingCreateRootTableVia_run h, by omega, fun p f _ hf => ?_⟩
  rw [hm] at hf
  rw [(tableAt_zeroTable hh.frame hf).2]
  exact hle

/-- The table a valid entry of the first two levels points at. -/
theorem Tables.pointer {m : Mem} {cur : Nat} (h : Tables m root cur) {p : List Idx} {i : Idx} (hp : p.length ≤ 1)
    (hf : tableAt m root p = some f) (hv : pteIsValid (entry m f i) = true) :
    tableAt m root (p ++ [i]) = some (physAddrFromPte (entry m f i)) := by
  rw [tableAt_concat, hf, Option.bind_some, child, pteTable, hv, h.not_leaf hp hf hv]
  rfl

theorem RunInv.shape (ha : AllocOk a) (h : RunInv a g s) : TableShape a g s := by
  have ht := h.inv.tables
  obtain ⟨k, hk⟩ := h.run
  have hl : ∀ {p : List Idx} (i : Idx), p.length ≤ 1 → (p ++ [i]).length ≤ 2 := fun i hp => by
    rw [List.length_append, List.length_singleton]
    omega
  refine ⟨fun p f i hp hf hv => ⟨ht.not_leaf hp hf hv, ?_⟩, fun p f i p' f' i' hp hf hv hp' hf' hv' e => ?_,
    fun p f i hp hf hv e => ?_, ht.leaf⟩
  · have hx := ht.pointer hp hf hv
    obtain ⟨hfr, hlt⟩ := ht.frame _ _ (hl i hp) hx
    rw [hk] at hlt
    obtain ⟨n, hn, he⟩ := handed_out ha hfr.aligned (h.above _ _ (hl i hp) hx) k hlt
    exact ⟨hfr.ne_zero, hfr.aligned, n, k, hn, hk, he⟩
  · have hx := ht.pointer hp hf hv
    rw [e] at hx
    have hpath := ht.tree _ _ _ (hl i hp) (hl i' hp') hx (ht.pointer hp' hf' hv')
    obtain ⟨rfl, hi⟩ := List.append_inj' hpath rfl
    rw [hf] at hf'
    exact ⟨Option.some.inj hf', List.singleton_inj.mp hi⟩
  · have hx := ht.pointer hp hf hv
    rw [e] at hx
    have hpath := ht.tree _ [] _ (hl i hp) (Nat.zero_le 2) hx (tableAt_nil ..)
    exact List.append_ne_nil_of_right_ne_nil p (List.cons_ne_nil i []) hpath

/-- A run of calls. -/
theorem runTableCalls_ok (calls : List TableCall) (hf : ∀ c ∈ calls, c.FlagsOk) (h : RunInv a g s) :
    ∃ s', runTableCalls (physToVirt g) calls s = some s' ∧ RunInv a g s' ∧ KGrows g s s' := by
  induction calls generalizing s with
  | nil => exact ⟨s, rfl, h, .refl ..⟩
  | cons c cs ih =>
    obtain ⟨hc, hcs⟩ := List.forall_mem_cons.mp hf
    obtain ⟨ok, s₁, he, hr⟩ := c.run_ok hc h.inv
    obtain ⟨s', hrun, hi, hg⟩ := ih hcs (h.step hr)
    refine ⟨s', ?_, hi, hr.grows.trans hg⟩
    rw [runTableCalls, he]
    exact hrun

theorem runTableCalls_append (before after : List TableCall) (s : KState) :
    runTableCalls root (before ++ after) s = (runTableCalls root before s).bind (runTableCalls root after) := by
  induction before generalizing s with
  | nil => rfl
  | cons c cs ih =>
    rw [List.cons_append, runTableCalls, runTableCalls]
    cases hc : c.run root s with
    | none => rfl
    | some r => exact ih r.2

/-- After any sequence of calls the tables have their shape, and what
`map_region` mapped is no table. -/
theorem pageTables_shape {s₀ : KState} (ha : AllocOk s₀.allocator) (hc : pagingCreateRootTable s₀ = some (g, s))
    (hg : g ≠ 0) (calls : List TableCall) (hf : ∀ c ∈ calls, c.FlagsOk) :
    ∃ s', runTableCalls (physToVirt g) calls s = some s' ∧ TableShape s₀.allocator g s' ∧
      ∀ v e, RegionLeaf (physToVirt g) g calls s v e →
        ∀ p, p.length ≤ 2 → tableAt s'.mem g p ≠ some (physAddrFromPte e) := by
  have h := RunInv.create ha hc hg
  obtain ⟨s', hrun, hi, -⟩ := runTableCalls_ok calls hf h
  refine ⟨s', hrun, hi.shape ha, fun v e ⟨before, r, after, s₁, ok, s₂, hcalls, h₁, hr, hv, hn⟩ => ?_⟩
  have hf' := hcalls ▸ hf
  obtain ⟨s₁', hb, hi₁, -⟩ := runTableCalls_ok before (fun c hm => hf' c (List.mem_append_left _ hm)) h
  obtain rfl : s₁' = s₁ := Option.some.inj (hb.symm.trans h₁)
  obtain ⟨ok', s₂', he, hres⟩ := TableCall.run_ok (hf' (.region r) (by simp)) hi₁.inv
  obtain ⟨rfl, rfl⟩ := Prod.mk.inj (Option.some.inj (he.symm.trans hr))
  obtain ⟨s'', ha', -, hgr⟩ := runTableCalls_ok after (fun c hm => hf' c (by simp [hm])) (hi₁.step hres)
  have hs : s'' = s' := by
    rw [hcalls, runTableCalls_append, hb, Option.bind_some, runTableCalls, he] at hrun
    exact Option.some.inj (ha'.symm.trans hrun)
  have hd := ((hres.region r rfl v e hv).resolve_left hn).grows hgr
  rw [hs] at hd
  exact hd.data

/-- A page mapped, then a region of two, under a root just created. -/
theorem pageTables_shape_sample : ∃ s s', pagingCreateRootTable ⟨fun _ => 0, ⟨0x80005000, 0x80020000⟩⟩ =
      some (0x80005000, s) ∧
    runTableCalls (physToVirt 0x80005000) [.map 0x400000 0x80010000 PTE_R, .region ⟨0x800000, 0x2000, PTE_R⟩] s =
      some s' ∧
    TableShape ⟨0x80005000, 0x80020000⟩ 0x80005000 s' := by
  have ha : AllocOk ⟨0x80005000, 0x80020000⟩ := ⟨by decide, by decide, by decide⟩
  have hp : physicalAllocPage ⟨0x80005000, 0x80020000⟩ = (0x80005000, ⟨0x80006000, 0x80020000⟩) := by decide
  have hc := pagingCreateRootTable_eq (s := ⟨fun _ => 0, ⟨0x80005000, 0x80020000⟩⟩) hp (by decide)
  obtain ⟨s', hrun, hshape, -⟩ := pageTables_shape ha hc (by decide)
    [.map 0x400000 0x80010000 PTE_R, .region ⟨0x800000, 0x2000, PTE_R⟩] (by decide)
  exact ⟨_, s', hc, hrun, hshape⟩

end RvOs
