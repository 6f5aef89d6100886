import RvOs.Proof.Map
import RvOs.Spec.Mapping

/-!
# Mapping and querying through the direct map

From the root table on, over any calls of `paging_map` and of the allocator
(`Reached`), `paging_map` adds exactly the page it is asked for, when the page
is free and the tables on its path are there or can be allocated, and
otherwise changes no translation (`pagingMap_pagingQuery`).
-/

namespace RvOs

variable {root : Addr} {s s' : KState} {va pa flags : U64} {o : U64}

section Leaf

variable (hf : flags.toNat < 2 ^ 10)

include hf

theorem pteIsValid_leaf : pteIsValid (pteFromPhysAddr pa (leafFlags flags)) = true := by
  rw [pteIsValid_pte (leafFlags_lt hf), pteIsValid_leafFlags]

theorem pteIsLeaf_leaf (hl : pteIsLeaf flags = true) :
    pteIsLeaf (pteFromPhysAddr pa (leafFlags flags)) = true := by
  rw [pteIsLeaf_pte (leafFlags_lt hf), pteIsLeaf_leafFlags hl]

theorem leafAt_pte (hpa : pa.toNat < 2 ^ 56) (ha : Aligned pa) (off : U64) :
    leafAt (pteFromPhysAddr pa (leafFlags flags)) off = (pa + off, leafFlags flags) := by
  rw [leafAt, physAddrFromPte_pte (leafFlags_lt hf) ha hpa, pte_flags (leafFlags_lt hf)]

end Leaf

theorem toNat_add_off (ha : Aligned va) {off : U64} (ho : off.toNat < 4096) :
    (va + off).toNat = va.toNat + off.toNat := by
  have := va.isLt
  unfold Aligned at ha
  rw [BitVec.toNat_add]; omega

/-- The addresses of the page at `va`. -/
theorem vpnOf_add_off (ha : Aligned va) {off : U64} (ho : off.toNat < 4096) :
    vpnOf (va + off) = vpnOf va := by
  apply BitVec.eq_of_toNat_eq
  have := toNat_add_off ha ho
  unfold Aligned at ha
  rw [vpnOf_toNat, vpnOf_toNat]; omega

theorem pageOffset_add_off (ha : Aligned va) {off : U64} (ho : off.toNat < 4096) :
    (va + off) &&& (PAGE_SIZE - 1) = off := by
  apply BitVec.eq_of_toNat_eq
  have := toNat_add_off ha ho
  unfold Aligned at ha
  rw [toNat_pageOffset]; omega

/-- A canonical address outside the page at `va` is of another page. -/
theorem vpnOf_ne (ha : Aligned va) (hc : Canonical va) {va' : U64} (hc' : Canonical va')
    (hn : ¬ (va.toNat ≤ va'.toNat ∧ va'.toNat < va.toNat + 4096)) : vpnOf va' ≠ vpnOf va := fun h => by
  have := vpnOf_inj hc' hc h
  unfold Aligned at ha
  omega

/-- Adding a page to an address space, as translations. -/
theorem AddrSpace.translate_update {A : AddrSpace} (h : MapArgs va pa flags) :
    (∀ off : U64, off.toNat < 4096 → AddrSpace.translate
      (Function.update A (vpnOf va) (some (pteFromPhysAddr pa (leafFlags flags)))) (va + off) =
        some (pa + off, leafFlags flags)) ∧
    ∀ va', Canonical va' → ¬ (va.toNat ≤ va'.toNat ∧ va'.toNat < va.toNat + 4096) →
      AddrSpace.translate (Function.update A (vpnOf va) (some (pteFromPhysAddr pa (leafFlags flags)))) va' =
        A.translate va' := by
  refine ⟨fun off ho => ?_, fun va' hc hn => ?_⟩
  · rw [AddrSpace.translate, vpnOf_add_off h.va_aligned ho, Function.update_self,
      pageOffset_add_off h.va_aligned ho, Option.map_some, leafAt_pte h.flags_lt h.pa_lt h.pa_aligned]
  · rw [AddrSpace.translate, Function.update_of_ne (vpnOf_ne h.va_aligned h.va_canonical hc hn),
      AddrSpace.translate]

/-! ## The root table -/

theorem child_zeroTable {g : Addr} (hg : IsFrame g) (m : Mem) (i : Idx) :
    child (zeroTable m g PAGE_TABLE_ENTRIES) g i = none :=
  child_eq_none (by rw [entry_zeroTable hg.aligned]; rfl)

/-- A zeroed frame is a root without tables. -/
theorem tableAt_zeroTable {g f : Addr} (hg : IsFrame g) {m : Mem} {p : List Idx}
    (h : tableAt (zeroTable m g PAGE_TABLE_ENTRIES) g p = some f) : p = [] ∧ f = g :=
  PathTree.nodeAt_leaf (child_zeroTable hg m) h

theorem Tables.zero {g : Addr} {m : Mem} {c : Nat} (hg : IsFrame g) (hc : g.toNat + 4096 ≤ c) :
    Tables (zeroTable m g PAGE_TABLE_ENTRIES) g c ∧ space (zeroTable m g PAGE_TABLE_ENTRIES) g = fun _ => none := by
  have h0 := child_zeroTable hg m
  refine ⟨⟨PathTree.IsTree.leaf h0, fun p f _ hf => ?_, fun p f i _ hf hv => ?_, fun p f i hl hf _ => ?_⟩, ?_⟩
  · rw [(tableAt_zeroTable hg hf).2]; exact ⟨hg, hc⟩
  · rw [(tableAt_zeroTable hg hf).2, entry_zeroTable hg.aligned] at hv; cases hv
  · rw [(tableAt_zeroTable hg hf).1] at hl; cases hl
  · funext v
    rw [space, tableAt_two, h0, Option.bind_none, Option.bind_none]

/-- A root table created. -/
theorem pagingCreateRootTableVia_ok (hle : s.allocator.current.toNat ≤ s.allocator.end_.toNat)
    (hend : s.allocator.end_.toNat ≤ 2 ^ 56) {r : Addr}
    (h : pagingCreateRootTableVia (.offset o) (· + o) s = some (r, s')) (hr : r ≠ 0) :
    ∃ g, r = g + o ∧ HandsOut s.allocator g s'.allocator ∧ s'.mem = zeroTable s.mem g PAGE_TABLE_ENTRIES ∧
      KInv g s' ∧ space s'.mem g = fun _ => none := by
  rw [pagingCreateRootTableVia] at h
  have hnull {a' : PhysicalPageAllocator} (e : physicalAllocPage s.allocator = (0, a')) : False := by
    rw [e] at h
    exact hr (congrArg Prod.fst (Option.some.inj h)).symm
  rcases physicalAllocPage_range hle hend with ⟨e, -⟩ | ⟨g, a', e, -, hg⟩
  · exact (hnull e).elim
  · have hne : g ≠ 0 := fun h0 => hnull (h0 ▸ e)
    have hg := hg hne
    rw [e] at h
    simp only [if_neg hne, pagingZeroTable_offset] at h
    cases h
    obtain ⟨ht, hs⟩ := Tables.zero (m := s.mem) hg.frame (Nat.le_of_eq hg.current.symm)
    exact ⟨g, rfl, hg, rfl, ⟨ht, hg.ok⟩, hs⟩

/-! ## Runs -/

theorem virtToPhys_add (p : Addr) : virtToPhys p + KERNEL_DIRECT_MAP_BASE = p := BitVec.sub_add_cancel ..

theorem pagingMap_ok (h : KInv (virtToPhys root) s) (hr : root ≠ 0) (ha : MapArgs va pa flags) :
    ∃ b s', pagingMap .direct root va pa flags s = some (b, s') ∧
      MapResult (virtToPhys root) s (vpnOf va) (missing s.mem (virtToPhys root) (vpnOf va))
        (pteFromPhysAddr pa (leafFlags flags)) b s' := by
  have := pagingMapVia_ok (o := KERNEL_DIRECT_MAP_BASE) (pteIsValid_leaf ha.flags_lt)
    (pteIsLeaf_leaf ha.flags_lt ha.leaf) h (by rwa [virtToPhys_add]) ha.va_aligned ha.pa_aligned
  rwa [virtToPhys_add] at this

theorem pagingQuery_eq (hr : root ≠ 0) (va : U64) (m : Mem) :
    pagingQuery .direct root va m = some ((space m (virtToPhys root)).translate va) := by
  have := pagingQueryVia_eq
    (show virtToPhys root + KERNEL_DIRECT_MAP_BASE ≠ 0 by rwa [virtToPhys_add]) va m
  rwa [virtToPhys_add] at this

/-- A query with the root table at the physical address `g`. -/
theorem pagingQuery_physToVirt {g : Addr} (hr : physToVirt g ≠ 0) (va : U64) (m : Mem) :
    pagingQuery .direct (physToVirt g) va m = some ((space m g).translate va) := pagingQueryVia_eq hr va m

/-- The early functions see physical memory at its own addresses. -/
theorem physToPtrEarly_eq : physToPtrEarly = (· + 0) := funext fun x => (BitVec.add_zero x).symm

theorem pagingQueryEarly_eq (hr : root ≠ 0) (va : U64) (m : Mem) :
    pagingQueryEarly root va m = some ((space m root).translate va) := by
  have z : root + 0 = root := BitVec.add_zero root
  have := pagingQueryVia_eq (o := 0) (by rwa [z]) va m
  rwa [z, ← physToPtrEarly_eq] at this

theorem pagingMapEarly_ok (hv : pteIsValid (pteFromPhysAddr pa (leafFlags flags)) = true)
    (hl : pteIsLeaf (pteFromPhysAddr pa (leafFlags flags)) = true) (h : KInv root s) (hr : root ≠ 0) (hva : Aligned va)
    (hpa : Aligned pa) : ∃ b s', pagingMapEarly root va pa flags s = some (b, s') ∧
      MapResult root s (vpnOf va) (missing s.mem root (vpnOf va)) (pteFromPhysAddr pa (leafFlags flags)) b s' := by
  have z : root + 0 = root := BitVec.add_zero root
  have := pagingMapVia_ok (o := 0) hv hl h (by rwa [z]) hva hpa
  rwa [z, ← physToPtrEarly_eq] at this

/-- An allocation keeps the invariant. -/
theorem KInv.alloc_page {root : Addr} (h : KInv root s) :
    KInv root { s with allocator := (physicalAllocPage s.allocator).2 } := by
  rcases physicalAllocPage_cases h.alloc with ⟨e, -⟩ | ⟨g, a', e, hg⟩
  · rw [e]; exact h
  · have := hg.le; have := hg.current
    rw [e]
    exact ⟨h.tables.congr (by simp only; omega) fun _ _ _ _ _ => rfl, hg.ok⟩

/-- Every state reached has the invariant. -/
theorem Reached.inv (h : Reached root s) : root ≠ 0 ∧ KInv (virtToPhys root) s := by
  induction h with
  | create ha he hr =>
    obtain ⟨g, rfl, -, -, hi, -⟩ := pagingCreateRootTableVia_ok (o := KERNEL_DIRECT_MAP_BASE) ha.le ha.lt he hr
    refine ⟨hr, ?_⟩
    rwa [virtToPhys, BitVec.add_sub_cancel]
  | map _ ha he ih =>
    obtain ⟨b, s', he', hres⟩ := pagingMap_ok ih.2 ih.1 ha
    rw [he'] at he
    cases he
    exact ⟨ih.1, hres.inv⟩
  | alloc _ ih => exact ⟨ih.1, ih.2.alloc_page⟩

/-- `paging_map` from any state reached: it returns true if and only if the
page is not mapped and the page-table frames missing on its path can be
supplied; then the page translates to the frame with the flags, and no other
translation changes; if it returns false, no translation changes. -/
theorem pagingMap_pagingQuery (h : Reached root s) (ha : MapArgs va pa flags) :
    ∃ b s', pagingMap .direct root va pa flags s = some (b, s') ∧
      (b = true ↔ pagingQuery .direct root va s.mem = some none ∧
        supplies (missing s.mem (virtToPhys root) (vpnOf va)) s.allocator) ∧
      (b = true → (∀ off : U64, off.toNat < 4096 → pagingQuery .direct root (va + off) s'.mem =
          some (some (pa + off, flags ||| PTE_V ||| PTE_A ||| PTE_D))) ∧
        ∀ va', Canonical va' → ¬ (va.toNat ≤ va'.toNat ∧ va'.toNat < va.toNat + 4096) →
          pagingQuery .direct root va' s'.mem = pagingQuery .direct root va' s.mem) ∧
      (b = false → ∀ va', Canonical va' →
        pagingQuery .direct root va' s'.mem = pagingQuery .direct root va' s.mem) := by
  obtain ⟨hr, hi⟩ := h.inv
  obtain ⟨b, s', he, -, -, hmap, hfail, -, -⟩ := pagingMap_ok hi hr ha
  have hfree : pagingQuery .direct root va s.mem = some none ↔
      space s.mem (virtToPhys root) (vpnOf va) = none := by
    rw [pagingQuery_eq hr, AddrSpace.translate, Option.some.injEq, Option.map_eq_none_iff]
  refine ⟨b, s', he, ?_, fun hb => ?_, fun hb va' _ => ?_⟩
  · rw [hfree]
    cases b with
    | true => exact iff_of_true rfl ⟨(hmap rfl).1, (hmap rfl).2.1⟩
    | false =>
      refine iff_of_false Bool.false_ne_true fun hok => ?_
      exact (hfail rfl).2.elim (fun hn => hn hok.1) (fun hn => hn hok.2)
  · simp only [pagingQuery_eq hr, (hmap hb).2.2, Option.some.injEq]
    exact AddrSpace.translate_update ha
  · rw [pagingQuery_eq hr, pagingQuery_eq hr, (hfail hb).1]

/-- A root table just created, at 0x80005000. -/
def freshRoot : KState := ⟨zeroTable (fun _ => 0) 0x80005000 PAGE_TABLE_ENTRIES, ⟨0x80006000, 0x80020000⟩⟩

theorem freshRoot_frame : IsFrame 0x80005000 := ⟨by decide, by decide, by decide⟩

theorem freshRoot_inv : KInv 0x80005000 freshRoot :=
  ⟨(Tables.zero freshRoot_frame (by decide)).1, by decide, by decide, by decide⟩

theorem freshRoot_space : space freshRoot.mem 0x80005000 = fun _ => none :=
  (Tables.zero (c := 0x80006000) freshRoot_frame (by decide)).2

theorem freshRoot_missing (v : Vpn) : missing freshRoot.mem 0x80005000 v = 2 := by
  rw [missing, tableAt_one, freshRoot, child_zeroTable freshRoot_frame]
  rfl

/-- Page 0x400000 mapped under a root just created. -/
theorem pagingMap_pagingQuery_root : ∃ s s', pagingCreateRootTableVia .direct physToVirt
      ⟨fun _ => 0, ⟨0x80005000, 0x80020000⟩⟩ = some (0xFFFFFFC080005000, s) ∧
    pagingMap .direct 0xFFFFFFC080005000 0x400000 0x80010000 (PTE_R ||| PTE_X) s = some (true, s') ∧
    pagingQuery .direct 0xFFFFFFC080005000 (0x400000 + 5) s'.mem =
      some (some (0x80010000 + 5, PTE_R ||| PTE_X ||| PTE_V ||| PTE_A ||| PTE_D)) := by
  have ha : AllocOk ⟨0x80005000, 0x80020000⟩ := ⟨by decide, by decide, by decide⟩
  have hc : pagingCreateRootTableVia .direct physToVirt ⟨fun _ => 0, ⟨0x80005000, 0x80020000⟩⟩ =
      some (0xFFFFFFC080005000, freshRoot) := by
    have hp : physicalAllocPage ⟨0x80005000, 0x80020000⟩ = (0x80005000, ⟨0x80006000, 0x80020000⟩) := by decide
    have hz := pagingZeroTable_offset KERNEL_DIRECT_MAP_BASE (fun _ => 0) 0x80005000
    rw [pagingCreateRootTableVia, hp]
    simp only [physToVirt, View.direct, hz, Option.bind_eq_bind, Option.bind_some]
    rfl
  have hre : Reached 0xFFFFFFC080005000 freshRoot := .create ha hc (by decide)
  obtain ⟨b, s', he, hiff, hok, -⟩ := pagingMap_pagingQuery hre (show MapArgs 0x400000 0x80010000
    (PTE_R ||| PTE_X) from ⟨by decide, by decide, by decide, by decide, by decide, by decide⟩)
  have hv : virtToPhys 0xFFFFFFC080005000 = 0x80005000 := by decide
  have hb : b = true := hiff.mpr ⟨by
    rw [pagingQuery_eq (by decide), hv, freshRoot_space]
    rfl, by
    rw [hv, freshRoot_missing]
    decide⟩
  subst hb
  exact ⟨_, s', hc, he, (hok rfl).1 5 (by decide)⟩

end RvOs
