import RvOs.Proof.TableOps

/-!
# Mapping a page

`paging_map` and `paging_query` on physical memory seen through a window
(`View.offset`, so both the early and the late functions), from any state of
the invariant `KInv`: a query reads the address space (`pagingQueryVia_eq`), a
step to the next table finds or links it (`nextTable_ok`), and a mapping adds
one page to the address space or, when it fails, leaves it as it was
(`pagingMapVia_ok`), because its page is mapped or no frame is left
(`pagingMapVia_blocked`).
-/

namespace RvOs

open PathTree

/-- What calls of the mapping code and of the allocator may do to the state. -/
structure KGrows (root : Addr) (s s' : KState) : Prop where
  grows : Grows root s.mem s.allocator.current.toNat s'.mem s'.allocator.current.toNat
  end_ : s'.allocator.end_ = s.allocator.end_

variable {root f : Addr} {s s' s₁ : KState} {q : List Idx} {i : Idx} {v : Vpn} {o : U64}

theorem KGrows.refl (root : Addr) (s : KState) : KGrows root s s := ⟨Grows.refl .., rfl⟩

theorem KGrows.trans (h₁ : KGrows root s s₁) (h₂ : KGrows root s₁ s') : KGrows root s s' :=
  ⟨h₁.grows.trans h₂.grows, h₂.end_.trans h₁.end_⟩

theorem missing_le (m : Mem) (root : Addr) (v : Vpn) : missing m root v ≤ 2 := by
  unfold missing
  split_ifs <;> omega

/-! ## Queries -/

theorem queryTable_eq (m : Mem) (f : Addr) (i : Idx) :
    queryTable (.offset o) (· + o) (entryPtr (f + o) (i.setWidth 64)) m = some ((child m f i).map (· + o)) := by
  rw [entryPtr_offset, queryTable, View.offset_load64, child, pteTable, entry]
  simp only [Option.bind_eq_bind, Option.bind_some]
  generalize m.read64 (entryPtr f (i.setWidth 64)) = e
  cases pteIsValid e <;> cases pteIsLeaf e <;> rfl

theorem tableAt_one (m : Mem) (root : Addr) (i : Idx) : tableAt m root [i] = child m root i := by
  rw [show [i] = [] ++ [i] from rfl, tableAt_concat, tableAt_nil, Option.bind_some]

theorem tableAt_two (m : Mem) (root : Addr) (i j : Idx) :
    tableAt m root [i, j] = (child m root i).bind (child m · j) := by
  rw [show [i, j] = [i] ++ [j] from rfl, tableAt_concat, tableAt_one]

/-- `paging_query` reads the address space of the tables. -/
theorem pagingQueryVia_eq (hr : root + o ≠ 0) (va : U64) (m : Mem) :
    pagingQueryVia (.offset o) (· + o) (root + o) va m = some ((space m root).translate va) := by
  rw [pagingQueryVia, if_neg hr, AddrSpace.translate, space, tableAt_two, sv39Vpn2_eq, sv39Vpn1_eq,
    sv39Vpn0_eq, queryTable_eq]
  simp only [Option.bind_eq_bind, Option.bind_some]
  cases child m root (vpnOf va).i2 with
  | none => rfl
  | some t =>
    simp only [Option.map_some, queryTable_eq, Option.bind_some]
    cases child m t (vpnOf va).i1 with
    | none => rfl
    | some t =>
      simp only [Option.map_some, Option.bind_some, entryPtr_offset, View.offset_load64]
      rw [← entry, pteLeaf]
      generalize entry m t (vpnOf va).i0 = e
      cases pteIsValid e <;> cases pteIsLeaf e <;> rfl

/-! ## Mapping -/

section Step

variable {V : View} {toPtr : U64 → Addr} {p g : Addr} {e : U64} (hl : V.load64 s.mem p = some e)

include hl

/-- The next table, by the entry that is read. -/
theorem nextTable_eq : nextTable V toPtr p s = (if !pteIsValid e then do
      let (newPagePhys, allocator) := physicalAllocPage s.allocator
      if newPagePhys = 0 then return (none, { s with allocator })
      let table := toPtr newPagePhys
      let mem ← pagingZeroTable V table s.mem
      let mem ← V.store64 mem p (pteFromPhysAddr newPagePhys PTE_V)
      return (some table, { mem, allocator })
    else if pteIsLeaf e then return (none, s)
    else return (some (toPtr (physAddrFromPte e)), s)) := by
  rw [nextTable, hl]
  rfl

theorem nextTable_leaf (hv : pteIsValid e = true) (hleaf : pteIsLeaf e = true) :
    nextTable V toPtr p s = some (none, s) := by
  rw [nextTable_eq hl, hv, hleaf]
  rfl

theorem nextTable_pointer (hv : pteIsValid e = true) (hleaf : pteIsLeaf e = false) :
    nextTable V toPtr p s = some (some (toPtr (physAddrFromPte e)), s) := by
  rw [nextTable_eq hl, hv, hleaf]
  rfl

variable {a' : PhysicalPageAllocator} (hv : pteIsValid e = false) (ha : physicalAllocPage s.allocator = (g, a'))

include hv ha

theorem nextTable_full (hg : g = 0) : nextTable V toPtr p s = some (none, { s with allocator := a' }) := by
  rw [nextTable_eq hl, hv, ha]
  exact if_pos hg

theorem nextTable_link (hg : g ≠ 0) {m₁ m₂ : Mem} (hz : pagingZeroTable V (toPtr g) s.mem = some m₁)
    (hs : V.store64 m₁ p (pteFromPhysAddr g PTE_V) = some m₂) :
    nextTable V toPtr p s = some (some (toPtr g), ⟨m₂, a'⟩) := by
  rw [nextTable_eq hl, hv, ha]
  refine (if_neg hg).trans ?_
  simp only [hz, hs, Option.bind_eq_bind, Option.bind_some, Option.pure_def]

end Step

/-- A free entry gets the next frame, seen through a window. -/
theorem nextTable_free {g : Addr} {a' : PhysicalPageAllocator} (hv : pteIsValid (entry s.mem f i) = false)
    (ha : physicalAllocPage s.allocator = (g, a')) (hg : g ≠ 0) :
    nextTable (.offset o) (· + o) (entryPtr (f + o) (i.setWidth 64)) s =
        some (some (g + o), ⟨linkTable s.mem f i g, a'⟩) := by
  rw [entryPtr_offset]
  exact nextTable_link (View.offset_load64 ..) hv ha hg (pagingZeroTable_offset ..) (View.offset_store64 ..)

/-- A step to the next table: it is there or is linked, or no frame is left. -/
theorem nextTable_ok (h : KInv root s) (hq : tableAt s.mem root q = some f) (hql : q.length ≤ 1) (i : Idx) :
    ∃ r s', nextTable (.offset o) (· + o) (entryPtr (f + o) (i.setWidth 64)) s = some (r, s') ∧
      KInv root s' ∧ KGrows root s s' ∧ space s'.mem root = space s.mem root ∧
      ((∃ t, r = some (t + o) ∧ tableAt s.mem root (q ++ [i]) = some t ∧ s' = s) ∨
        (∃ t, r = some (t + o) ∧ tableAt s.mem root (q ++ [i]) = none ∧
          (∀ p, p.length ≤ 2 → tableAt s'.mem root p = if p = q ++ [i] then some t else tableAt s.mem root p) ∧
          (physicalAllocPage s.allocator).1 ≠ 0 ∧ s'.allocator = (physicalAllocPage s.allocator).2) ∨
        (r = none ∧ tableAt s.mem root (q ++ [i]) = none ∧ ¬ supplies 1 s.allocator ∧ s' = s)) := by
  have hc : tableAt s.mem root (q ++ [i]) = child s.mem f i := by rw [tableAt_concat, hq, Option.bind_some]
  have hl : (View.offset o).load64 s.mem (entryPtr (f + o) (i.setWidth 64)) = some (entry s.mem f i) := by
    rw [entryPtr_offset]
    exact View.offset_load64 ..
  rw [hc]
  cases hv : pteIsValid (entry s.mem f i) with
  | true =>
    have hleaf := h.tables.not_leaf hql hq hv
    have ht : child s.mem f i = some (physAddrFromPte (entry s.mem f i)) := by
      rw [child, pteTable, hv, hleaf]; rfl
    exact ⟨some (physAddrFromPte (entry s.mem f i) + o), s, nextTable_pointer hl hv hleaf, h, .refl .., rfl,
      .inl ⟨_, rfl, ht, rfl⟩⟩
  | false =>
    have hnone : child s.mem f i = none := child_eq_none hv
    rcases physicalAllocPage_cases h.alloc with ⟨ha, -⟩ | ⟨g, a', ha, hg⟩
    · exact ⟨none, s, nextTable_full hl hv ha rfl, h, .refl .., rfl,
        .inr (.inr ⟨rfl, hnone, not_supplies_succ ha 0, rfl⟩)⟩
    · have hlink := h.tables.link hq hql hg.le hg.frame hv hg.current.ge
      refine ⟨some (g + o), ⟨linkTable s.mem f i g, a'⟩, nextTable_free hv ha hg.frame.ne_zero,
        ⟨hlink.1, hg.ok⟩, ⟨hlink.2.1, hg.end_⟩, hlink.2.2,
        .inr (.inl ⟨g, rfl, hnone, fun p hp => ?_, by rw [ha]; exact hg.frame.ne_zero, by rw [ha]⟩)⟩
      exact tableAt_link h.tables.toTree hq hql (h.tables.fresh hg.le) hg.frame hv hp

theorem pagingMapVia_unaligned {va pa flags : U64} {V : View} {toPtr : U64 → Addr}
    (h : ¬ (Aligned va ∧ Aligned pa)) : pagingMapVia V toPtr root va pa flags s = some (false, s) := by
  rw [← aligned_iff, ← aligned_iff] at h
  rw [pagingMapVia]
  split
  · rfl
  split
  · rfl
  split
  · rfl
  rename_i h₁ h₂
  exact absurd ⟨not_not.mp h₁, not_not.mp h₂⟩ h

/-- What mapping page `v` to the leaf `pte` does when `n` page-table frames are
missing: true if the page was free and the frames could be supplied, and then
exactly that page and the tables on its path are added; false otherwise, and
no translation changes. -/
structure MapResult (root : Addr) (s : KState) (v : Vpn) (n : Nat) (pte : U64) (b : Bool) (s' : KState) :
    Prop where
  inv : KInv root s'
  grows : KGrows root s s'
  mapped : b = true → space s.mem root v = none ∧ supplies n s.allocator ∧
    space s'.mem root = Function.update (space s.mem root) v (some pte)
  failed : b = false → space s'.mem root = space s.mem root ∧
    (space s.mem root v ≠ none ∨ ¬ supplies n s.allocator)
  allocs : b = true → s'.allocator = allocMany n s.allocator
  paths : b = true → ∀ p, p.length ≤ 2 → ((tableAt s'.mem root p).isSome ↔
    (tableAt s.mem root p).isSome ∨ p = [v.i2] ∨ p = [v.i2, v.i1])

variable {n n₁ : Nat} {pte : U64} {b : Bool}

theorem tableAt_prefix {m : Mem} {i j : Idx} (h : (tableAt m root [i, j]).isSome) : (tableAt m root [i]).isSome := by
  rw [tableAt_two] at h
  rw [tableAt_one]
  cases hc : child m root i with
  | none => rw [hc] at h; cases h
  | some t => rfl

/-- A table linked on the path of the page, before a mapping. -/
theorem MapResult.link (h : MapResult root s₁ v n pte b s') (g : KGrows root s s₁)
    (e : space s₁.mem root = space s.mem root) {t : Addr} (hq : q = [v.i2] ∨ q = [v.i2, v.i1])
    (ht : ∀ p, p.length ≤ 2 → tableAt s₁.mem root p = if p = q then some t else tableAt s.mem root p)
    (ha : (physicalAllocPage s.allocator).1 ≠ 0) (ha' : s₁.allocator = (physicalAllocPage s.allocator).2) :
    MapResult root s v (n + 1) pte b s' := by
  have hn : supplies (n + 1) s.allocator ↔ supplies n s₁.allocator := by
    rw [ha', supplies]; exact and_iff_right ha
  obtain ⟨hinv, hg, hm, hf, hal, hp⟩ := h
  rw [e, ← hn] at hm hf
  refine ⟨hinv, g.trans hg, hm, hf, fun hb => by rw [hal hb, ha', allocMany], fun hb p hl => ?_⟩
  rw [hp hb p hl, ht p hl]
  split
  · rename_i hpq
    rw [hpq]
    exact iff_of_true (.inl rfl) (.inr hq)
  · rfl

variable {pa flags : U64} (hvalid : pteIsValid (pteFromPhysAddr pa (leafFlags flags)) = true)
  (hleaf : pteIsLeaf (pteFromPhysAddr pa (leafFlags flags)) = true)

include hvalid hleaf

/-- The last step, in the last-level table `t` of page `v`. -/
theorem setLeaf_ok (h : KInv root s) {t : Addr} (ht : tableAt s.mem root [v.i2, v.i1] = some t) :
    ∃ b s', setLeaf (.offset o) (entryPtr (t + o) (v.i0.setWidth 64)) pa flags s = some (b, s') ∧
      MapResult root s v 0 (pteFromPhysAddr pa (leafFlags flags)) b s' := by
  have hl : [v.i2, v.i1].length = 2 := rfl
  have hs : space s.mem root v = pteLeaf (entry s.mem t v.i0) := by rw [space, ht, Option.bind_some]
  rw [entryPtr_offset, setLeaf, View.offset_load64]
  simp only [Option.bind_eq_bind, Option.bind_some]
  change ∃ b s', (if pteIsValid (entry s.mem t v.i0) = true then _ else _) = some (b, s') ∧ _
  cases hv : pteIsValid (entry s.mem t v.i0) with
  | true =>
    have hne : space s.mem root v ≠ none := by
      rw [hs, pteLeaf, hv, h.tables.leaf _ t v.i0 hl ht hv]; simp
    exact ⟨false, s, rfl, h, .refl .., by simp, fun _ => ⟨rfl, .inl hne⟩, by simp, by simp⟩
  | false =>
    obtain ⟨ht', hg, hsp⟩ := h.tables.setLeaf ht hv hvalid hleaf
    refine ⟨true, ⟨s.mem.write64 (entryPtr t (v.i0.setWidth 64)) (pteFromPhysAddr pa (leafFlags flags)),
      s.allocator⟩, ?_, ⟨ht', h.alloc⟩, ⟨hg, rfl⟩, fun _ => ⟨?_, trivial, hsp⟩, by simp, fun _ => rfl,
      fun _ p hp => ?_⟩
    · rw [if_neg (by decide), View.offset_store64]; rfl
    · rw [hs, pteLeaf, hv]; rfl
    · -- the tables are those of before
      have h1 : (tableAt s.mem root [v.i2]).isSome := tableAt_prefix (j := v.i1) (by rw [ht]; rfl)
      refine ⟨fun hsome => .inl ?_, ?_⟩
      · obtain ⟨x, hx⟩ := Option.isSome_iff_exists.mp hsome
        rcases hg.fresh p x hp hx with hx | ⟨-, h₁, h₂⟩
        · rw [hx]; rfl
        · omega
      · rintro (hsome | rfl | rfl)
        · obtain ⟨x, hx⟩ := Option.isSome_iff_exists.mp hsome
          rw [hg.keep p x hp hx]; rfl
        · obtain ⟨x, hx⟩ := Option.isSome_iff_exists.mp h1
          rw [hg.keep _ x hp hx]; rfl
        · rw [hg.keep _ t hp ht]; rfl

/-- From the level-1 table `t` of page `v` on. -/
theorem mapFromLevel1_ok (h : KInv root s) {va : U64} {t : Addr} (ht : tableAt s.mem root [(vpnOf va).i2] = some t) :
    ∃ b s', mapFromLevel1 (.offset o) (· + o) (t + o) va pa flags s = some (b, s') ∧
      MapResult root s (vpnOf va) (if (tableAt s.mem root [(vpnOf va).i2, (vpnOf va).i1]).isNone then 1 else 0)
        (pteFromPhysAddr pa (leafFlags flags)) b s' := by
  rw [mapFromLevel1, sv39Vpn1_eq, sv39Vpn0_eq]
  generalize vpnOf va = v at ht ⊢
  obtain ⟨r, s₁, hn, h₁, g₁, e₁, hcase⟩ := nextTable_ok (o := o) h ht (by simp) v.i1
  rw [List.singleton_append] at hcase
  rw [hn]
  rcases hcase with ⟨t', rfl, ht', rfl⟩ | ⟨t', rfl, hnone, hat, hsup, hal⟩ | ⟨rfl, hnone, hsup, -⟩
  · obtain ⟨b, s', he, hr⟩ := setLeaf_ok (o := o) hvalid hleaf h₁ ht'
    exact ⟨b, s', he, by rw [ht']; exact hr⟩
  · obtain ⟨b, s', he, hr⟩ := setLeaf_ok (o := o) hvalid hleaf h₁ (v := v) (t := t')
      (by rw [hat _ (by simp), if_pos rfl])
    exact ⟨b, s', he, by rw [hnone]; exact hr.link g₁ e₁ (.inr rfl) hat hsup hal⟩
  · exact ⟨false, s₁, rfl, h₁, g₁, by simp, fun _ => ⟨e₁, .inr (by rw [hnone]; exact hsup)⟩, by simp, by simp⟩

/-- A mapping of aligned addresses. -/
theorem pagingMapVia_ok (h : KInv root s) (hr : root + o ≠ 0) {va : U64} (hva : Aligned va)
    (hpa : Aligned pa) :
    ∃ b s', pagingMapVia (.offset o) (· + o) (root + o) va pa flags s = some (b, s') ∧
      MapResult root s (vpnOf va) (missing s.mem root (vpnOf va)) (pteFromPhysAddr pa (leafFlags flags)) b s' := by
  rw [pagingMapVia, if_neg hr, if_neg (not_not.mpr ((aligned_iff va).mpr hva)),
    if_neg (not_not.mpr ((aligned_iff pa).mpr hpa)), sv39Vpn2_eq]
  obtain ⟨r, s₁, hn, h₁, g₁, e₁, hcase⟩ := nextTable_ok (o := o) h (tableAt_nil ..) (by simp) (vpnOf va).i2
  rw [List.nil_append] at hcase
  rw [hn]
  rcases hcase with ⟨t, rfl, ht, rfl⟩ | ⟨t, rfl, hnone, hat, hsup, hal⟩ | ⟨rfl, hnone, hsup, -⟩
  · obtain ⟨b, s', he, hr⟩ := mapFromLevel1_ok (o := o) hvalid hleaf h₁ ht
    exact ⟨b, s', he, by rw [missing, ht]; exact hr⟩
  · obtain ⟨b, s', he, hr⟩ := mapFromLevel1_ok (o := o) hvalid hleaf h₁
      (show tableAt s₁.mem root [(vpnOf va).i2] = some t by rw [hat _ (by simp), if_pos rfl])
    have hno : tableAt s₁.mem root [(vpnOf va).i2, (vpnOf va).i1] = none := by
      rw [hat _ (by simp), if_neg (by simp), ← List.singleton_append, tableAt_concat, hnone, Option.bind_none]
    rw [hno] at hr
    exact ⟨b, s', he, by rw [missing, hnone]; exact hr.link g₁ e₁ (.inl rfl) hat hsup hal⟩
  · refine ⟨false, s₁, rfl, h₁, g₁, by simp, fun _ => ⟨e₁, .inr ?_⟩, by simp, by simp⟩
    rw [missing, hnone]
    exact fun hs => hsup ⟨hs.1, trivial⟩

/-! ## Why a mapping fails -/

/-- Page `v` is mapped, or no frame is left. -/
def Blocked (root : Addr) (s : KState) (v : Vpn) : Prop := space s.mem root v ≠ none ∨ ¬ supplies 1 s.allocator

theorem mapFromLevel1_blocked (h : KInv root s) {va : U64} {t : Addr}
    (ht : tableAt s.mem root [(vpnOf va).i2] = some t)
    (hm : mapFromLevel1 (.offset o) (· + o) (t + o) va pa flags s = some (false, s')) :
    Blocked root s' (vpnOf va) := by
  rw [mapFromLevel1, sv39Vpn1_eq, sv39Vpn0_eq] at hm
  generalize vpnOf va = v at ht hm ⊢
  obtain ⟨r, s₁, hn, h₁, -, -, hcase⟩ := nextTable_ok (o := o) h ht (by simp) v.i1
  rw [List.singleton_append] at hcase
  rw [hn, Option.bind_eq_bind, Option.bind_some] at hm
  -- in the last-level table only a leaf that is there stops the mapping
  have last {t' : Addr} (ht' : tableAt s₁.mem root [v.i2, v.i1] = some t')
      (hl : setLeaf (.offset o) (entryPtr (t' + o) (v.i0.setWidth 64)) pa flags s₁ = some (false, s')) :
      Blocked root s' v := by
    obtain ⟨b, s₂, he, hr⟩ := setLeaf_ok (o := o) hvalid hleaf h₁ ht'
    obtain ⟨rfl, rfl⟩ := Prod.mk.inj (Option.some.inj (he.symm.trans hl))
    obtain ⟨hs, hb | hb⟩ := hr.failed rfl
    · rw [Blocked, hs]
      exact .inl hb
    · exact absurd trivial hb
  rcases hcase with ⟨t', rfl, ht', rfl⟩ | ⟨t', rfl, -, hat, -⟩ | ⟨rfl, -, hsup, rfl⟩
  · exact last ht' hm
  · exact last (by rw [hat _ (by simp), if_pos rfl]) hm
  · cases hm
    exact .inr hsup

/-- A mapping of aligned addresses that fails: its page is mapped, or no frame is left. -/
theorem pagingMapVia_blocked (h : KInv root s) (hr : root + o ≠ 0) {va : U64} (hva : Aligned va) (hpa : Aligned pa)
    (hm : pagingMapVia (.offset o) (· + o) (root + o) va pa flags s = some (false, s')) :
    Blocked root s' (vpnOf va) := by
  rw [pagingMapVia, if_neg hr, if_neg (not_not.mpr ((aligned_iff va).mpr hva)),
    if_neg (not_not.mpr ((aligned_iff pa).mpr hpa)), sv39Vpn2_eq] at hm
  obtain ⟨r, s₁, hn, h₁, -, -, hcase⟩ := nextTable_ok (o := o) h (tableAt_nil ..) (by simp) (vpnOf va).i2
  rw [List.nil_append] at hcase
  rw [hn, Option.bind_eq_bind, Option.bind_some] at hm
  rcases hcase with ⟨t, rfl, ht, rfl⟩ | ⟨t, rfl, -, hat, -⟩ | ⟨rfl, -, hsup, rfl⟩
  · exact mapFromLevel1_blocked hvalid hleaf h₁ ht hm
  · exact mapFromLevel1_blocked hvalid hleaf h₁ (by rw [hat _ (by simp), if_pos rfl]) hm
  · cases hm
    exact .inr hsup

end RvOs
