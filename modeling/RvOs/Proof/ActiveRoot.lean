import RvOs.Proof.FrameRuns
import RvOs.Proof.Loaded
import RvOs.Proof.Sv39
import RvOs.Spec.ActiveRoot

/-!
# The mapping code on its own tables

Every store of the mapping code goes to a frame that is no table yet or to an
entry that is not valid, so it moves no translation in use (`sv39Translate_keep`)
and the direct map stays where it is. Step by step the late functions then do
what the early ones do on physical memory, and keep `DirectMapped`
(`nextTable_agree`, `setLeaf_agree`, `pagingMap_agree`).
-/

namespace RvOs

open PathTree

variable {sum : Bool} {ram : U64 → Prop} {root f g x : Addr} {s s' : KState} {m' : Mem} {q : List Idx} {i : Idx}
  {va pa flags : U64}

theorem entryPtr_physToVirt (f i : U64) : entryPtr (physToVirt f) i = physToVirt (entryPtr f i) := entryPtr_offset ..

namespace DirectMapped

/-- An entry of a frame of RAM. -/
theorem entry_ram (hf : FrameOf ram f) {j : U64} (hj : j.toNat < 512) : ram (entryPtr f j) :=
  hf.2 _ (inFrame_of_entry hf.1 hj (by rw [BitVec.sub_self]; decide))

variable (h : DirectMapped sum ram root s)

include h

theorem toTree : TableTree s.mem root := ⟨h.tree, fun p f hp hf => (h.tables p f hp hf).1⟩

/-- An address in the direct map, in a memory that keeps the valid entries. -/
theorem active (hk : KeepsValid root s.mem m') (hx : ram x) (access : Access) :
    View.active sum root m' access (physToVirt x) = some x := by
  obtain ⟨fl, ht, ha⟩ := h.direct x hx
  rw [View.active, sv39Translate_keep hk ht]
  exact if_pos (ha access)

theorem load64 (hx : ram x) : (View.active sum root).load64 s.mem (physToVirt x) = some (s.mem.read64 x) := by
  rw [View.load64, h.active (fun _ _ _ _ _ _ => rfl) hx]
  rfl

theorem store64 (hk : KeepsValid root s.mem m') (hx : ram x) (v : U64) :
    (View.active sum root).store64 m' (physToVirt x) v = some (m'.write64 x v) := by
  rw [View.store64, h.active hk hx]
  rfl

/-- What is free is a frame below 2⁵⁶. -/
theorem isFrame (hg : FrameOf ram g) (h0 : g ≠ 0) : IsFrame g := by
  have hal := hg.1
  unfold Aligned at hal
  have hne : g.toNat ≠ 0 := fun e => h0 (BitVec.eq_of_toNat_eq e)
  have hin : InFrame g (g + 4095) := by
    have := g.isLt
    unfold InFrame
    rw [BitVec.toNat_add, show (4095 : U64).toNat = 4095 from rfl]
    omega
  obtain ⟨fl, ht, -⟩ := h.direct _ (hg.2 _ hin)
  have hlt := (sv39Translate_bits ht).1
  have := g.isLt
  rw [BitVec.toNat_add, show (4095 : U64).toNat = 4095 from rfl] at hlt
  exact ⟨hg.1, by omega, by omega⟩

/-- Writes to a frame that is no table. -/
theorem keeps_of_other (hg : Aligned g) (hn : ∀ p, p.length ≤ 2 → tableAt s.mem root p ≠ some g)
    (he : ∀ a, ¬ InFrame g a → m' a = s.mem a) : KeepsValid root s.mem m' := by
  intro p f i hp hf _
  have hfa := (h.tables p f hp hf).1
  refine entry_congr hfa (fun a ha => he a fun hga => hn p hp ?_) i
  unfold InFrame at ha hga
  unfold Aligned at hg hfa
  rw [hf, BitVec.eq_of_toNat_eq (by omega : f.toNat = g.toNat)]

/-- A free frame is zeroed through the direct map, entry by entry. -/
theorem zeroEntries_ok (hg : FrameOf ram g) (hn : ∀ p, p.length ≤ 2 → tableAt s.mem root p ≠ some g) (n : Nat) :
    n ≤ 512 → zeroEntries (.active sum root) (physToVirt g) s.mem n = some (zeroTable s.mem g n) := by
  induction n with
  | zero => exact fun _ => rfl
  | succ n ih =>
    intro hn'
    have hk : KeepsValid root s.mem (zeroTable s.mem g n) :=
      h.keeps_of_other hg.1 hn fun a ha => zeroTable_apply hg.1 ha n (by omega)
    have hlt : (BitVec.ofNat 64 n).toNat < 512 := by
      rw [BitVec.toNat_ofNat]
      omega
    have hs := h.store64 hk (entry_ram hg hlt) 0
    rw [← entryPtr_physToVirt] at hs
    rw [zeroEntries, ih (by omega), zeroTable, Option.bind_eq_bind, Option.bind_some]
    exact hs

theorem zeroTable_ok (hg : FrameOf ram g) (hn : ∀ p, p.length ≤ 2 → tableAt s.mem root p ≠ some g) :
    pagingZeroTable (.active sum root) (physToVirt g) s.mem = some (zeroTable s.mem g PAGE_TABLE_ENTRIES) := by
  rw [pagingZeroTable]
  exact h.zeroEntries_ok hg hn _ (by decide)

/-! ## The direct map stays -/

section Alloc

variable {a' : PhysicalPageAllocator} (ha : physicalAllocPage s.allocator = (g, a'))

include ha

/-- The frames left after a call. -/
theorem free_succ (n : Nat) (hn : frameOf a' n ≠ 0) : frameOf s.allocator (n + 1) = frameOf a' n ∧
    FrameOf ram (frameOf a' n) ∧ ∀ p, p.length ≤ 2 → tableAt s.mem root p ≠ some (frameOf a' n) := by
  have e : frameOf s.allocator (n + 1) = frameOf a' n := by rw [frameOf_succ, ha]
  have hf := h.free (n + 1)
  rw [e] at hf
  exact ⟨e, hf hn⟩

/-- A call of the allocator. -/
theorem alloc : DirectMapped sum ram root { s with allocator := a' } :=
  ⟨h.direct, h.tree, h.tables, fun n hn => (h.free_succ ha n hn).2⟩

/-- The next free frame linked. -/
theorem link (hr : root ≠ 0) (hq : tableAt s.mem root q = some f) (hql : q.length ≤ 1)
    (he : pteIsValid (entry s.mem f i) = false) (hg : g ≠ 0) :
    DirectMapped sum ram root ⟨linkTable s.mem f i g, a'⟩ ∧
        tableAt (linkTable s.mem f i g) root (q ++ [i]) = some g := by
  have h0 : frameOf s.allocator 0 = g := by rw [frameOf, allocMany, ha]
  obtain ⟨hram, hn⟩ := h.free 0 (by rw [h0]; exact hg)
  have hroot := (h.tables [] root (by simp) (tableAt_nil ..)).1
  -- the root is no free frame, so no frame is handed out twice
  have honce := frameOf_ne hroot (fun n e => by
    have hne : frameOf s.allocator n ≠ 0 := by rw [e]; exact hr
    exact (h.free n hne).2 [] (by simp) (by rw [e]; exact tableAt_nil ..)) (by rw [h0]; exact hg)
  rw [h0] at hram hn honce
  have hframe := h.isFrame hram hg
  have hk : KeepsValid root s.mem (linkTable s.mem f i g) :=
    fun p x j => entry_link_valid h.toTree hq hql hn hframe he p x j
  have ht := fun {p : List Idx} (hp : p.length ≤ 2) => tableAt_link h.toTree hq hql hn hframe he hp
  refine ⟨⟨fun p hp => ?_, isTree_link h.toTree hq hql hn hframe he, fun p x hp hx => ?_, fun n hn' => ?_⟩, ?_⟩
  · obtain ⟨fl, hfl⟩ := h.direct p hp
    exact ⟨fl, sv39Translate_keep hk hfl.1, hfl.2⟩
  · rw [ht hp] at hx
    split at hx
    · rw [← Option.some.inj hx]
      exact hram
    · exact h.tables p x hp hx
  · obtain ⟨e, hfr, hno⟩ := h.free_succ ha n hn'
    refine ⟨hfr, fun p hp hx => ?_⟩
    rw [ht hp] at hx
    split at hx
    · exact honce n (e.trans (Option.some.inj hx).symm)
    · exact hno p hp hx
  · rw [ht (by rw [List.length_append, List.length_singleton]; omega), if_pos rfl]

end Alloc

/-- A leaf entry filled. -/
theorem setLeaf {v : Vpn} (hf : tableAt s.mem root [v.i2, v.i1] = some f)
    (he : pteIsValid (entry s.mem f v.i0) = false) (e : U64) :
    DirectMapped sum ram root { s with mem := s.mem.write64 (entryPtr f (v.i0.setWidth 64)) e } := by
  have hl : [v.i2, v.i1].length ≤ 2 := by simp
  have hinner := entry_setLeaf h.toTree hf e
  have ht : ∀ p, p.length ≤ 2 → tableAt (s.mem.write64 (entryPtr f (v.i0.setWidth 64)) e) root p =
      tableAt s.mem root p := fun p hp => tableAt_congr hinner hp
  have hk : KeepsValid root s.mem (s.mem.write64 (entryPtr f (v.i0.setWidth 64)) e) := by
    intro p x j hp hx hv
    rw [entry_write (h.toTree.aligned _ f hl hf) (h.toTree.aligned p x hp hx), if_neg]
    intro hxj
    rw [hxj.1, hxj.2, he] at hv
    cases hv
  refine ⟨fun p hp => ?_, h.tree.congr fun p x j hp hx => child_eq_of_entry (hinner p x j (by omega) hx),
    fun p x hp hx => h.tables p x hp ((ht p hp).symm.trans hx), fun n hn => ?_⟩
  · obtain ⟨fl, hfl⟩ := h.direct p hp
    exact ⟨fl, sv39Translate_keep hk hfl.1, hfl.2⟩
  · obtain ⟨hfr, hno⟩ := h.free n hn
    exact ⟨hfr, fun p hp hx => hno p hp ((ht p hp).symm.trans hx)⟩

end DirectMapped

/-! ## The late functions do what the early ones do -/

theorem phys_load64 (m : Mem) (p : Addr) : View.phys.load64 m p = some (m.read64 p) := by
  simp [View.load64, View.phys, View.offset]

theorem phys_store64 (m : Mem) (p : Addr) (v : U64) : View.phys.store64 m p v = some (m.write64 p v) := by
  simp [View.store64, View.phys, View.offset]

theorem phys_zeroTable (m : Mem) (f : Addr) :
    pagingZeroTable .phys f m = some (zeroTable m f PAGE_TABLE_ENTRIES) := by
  have h := pagingZeroTable_offset 0 m f
  rwa [show f + 0 = f from BitVec.add_zero f] at h

namespace DirectMapped

variable (h : DirectMapped sum ram root s)

include h

theorem load_entry {p : List Idx} (hp : p.length ≤ 2) (hf : tableAt s.mem root p = some f) (i : Idx) :
    (View.active sum root).load64 s.mem (entryPtr (physToVirt f) (i.setWidth 64)) = some (entry s.mem f i) := by
  rw [entryPtr_physToVirt]
  exact h.load64 (entry_ram (h.tables p f hp hf) (by rw [toNat_idx]; exact i.isLt))

omit h in
theorem early_entry (m : Mem) (f : Addr) (i : Idx) :
    View.phys.load64 m (entryPtr f (i.setWidth 64)) = some (entry m f i) := phys_load64 ..

/-- The late step that links the next free frame. -/
theorem nextTable_linked (hq : tableAt s.mem root q = some f) (hql : q.length ≤ 1)
    (hv : pteIsValid (entry s.mem f i) = false) {a' : PhysicalPageAllocator}
    (ha : physicalAllocPage s.allocator = (g, a')) (hg : g ≠ 0) :
    nextTable (.active sum root) physToVirt (entryPtr (physToVirt f) (i.setWidth 64)) s =
      some (some (physToVirt g), ⟨linkTable s.mem f i g, a'⟩) := by
  have h0 : frameOf s.allocator 0 = g := by rw [frameOf, allocMany, ha]
  obtain ⟨hram, hn⟩ := h.free 0 (by rw [h0]; exact hg)
  rw [h0] at hram hn
  have hk : KeepsValid root s.mem (zeroTable s.mem g PAGE_TABLE_ENTRIES) :=
    h.keeps_of_other hram.1 hn fun a ha => zeroTable_apply hram.1 ha _ (by decide)
  have hf : ram (entryPtr f (i.setWidth 64)) :=
    entry_ram (h.tables q f (by omega) hq) (by rw [toNat_idx]; exact i.isLt)
  have hs := h.store64 hk hf (pteFromPhysAddr g PTE_V)
  rw [← entryPtr_physToVirt] at hs
  exact nextTable_link (h.load_entry (by omega) hq i) hv ha hg (h.zeroTable_ok hram hn) hs

/-- A step to the next table. -/
theorem nextTable_agree (hr : root ≠ 0) (hq : tableAt s.mem root q = some f) (hql : q.length ≤ 1) (i : Idx) :
    ∃ r s', nextTable (.active sum root) physToVirt (entryPtr (physToVirt f) (i.setWidth 64)) s =
        some (r.map physToVirt, s') ∧
      nextTable .phys physToPtrEarly (entryPtr f (i.setWidth 64)) s = some (r, s') ∧ DirectMapped sum ram root s' ∧
      ∀ t, r = some t → tableAt s'.mem root (q ++ [i]) = some t := by
  have hlate := h.load_entry (by omega) hq i
  have hearly := early_entry s.mem f i
  cases hv : pteIsValid (entry s.mem f i) with
  | true =>
    cases hl : pteIsLeaf (entry s.mem f i) with
    | true => exact ⟨none, s, nextTable_leaf hlate hv hl, nextTable_leaf hearly hv hl, h, by simp⟩
    | false =>
      refine ⟨some (physAddrFromPte (entry s.mem f i)), s, nextTable_pointer hlate hv hl,
        nextTable_pointer hearly hv hl, h, fun t ht => ?_⟩
      rw [tableAt_concat, hq, Option.bind_some, child, pteTable, hv, hl, ← ht]
      rfl
  | false =>
    obtain ⟨g, a', ha⟩ : ∃ g a', physicalAllocPage s.allocator = (g, a') := ⟨_, _, Prod.mk.eta.symm⟩
    by_cases hg : g = 0
    · have hd := h.alloc ha
      refine ⟨none, _, nextTable_full hlate hv ha hg, nextTable_full hearly hv ha hg, hd, ?_⟩
      simp
    · obtain ⟨hd, ht⟩ := h.link ha hr hq hql hv hg
      refine ⟨some g, ⟨linkTable s.mem f i g, a'⟩, h.nextTable_linked hq hql hv ha hg,
        nextTable_link hearly hv ha hg (phys_zeroTable s.mem g) (phys_store64 ..), hd, fun t e => ?_⟩
      rw [← Option.some.inj e]
      exact ht

/-- The last step. -/
theorem setLeaf_agree {v : Vpn} {t : Addr} (ht : tableAt s.mem root [v.i2, v.i1] = some t) (pa flags : U64) :
    ∃ b s', RvOs.setLeaf (.active sum root) (entryPtr (physToVirt t) (v.i0.setWidth 64)) pa flags s = some (b, s') ∧
      RvOs.setLeaf .phys (entryPtr t (v.i0.setWidth 64)) pa flags s = some (b, s') ∧ DirectMapped sum ram root s' := by
  have hl : [v.i2, v.i1].length ≤ 2 := by simp
  have hlate := h.load_entry hl ht v.i0
  have hearly := early_entry s.mem t v.i0
  cases hv : pteIsValid (entry s.mem t v.i0) with
  | true =>
    refine ⟨false, s, ?_, ?_, h⟩
    · simp only [RvOs.setLeaf, hlate, Option.bind_eq_bind, Option.bind_some, hv, ite_true, Option.pure_def]
    · simp only [RvOs.setLeaf, hearly, Option.bind_eq_bind, Option.bind_some, hv, ite_true, Option.pure_def]
  | false =>
    have hf : ram (entryPtr t (v.i0.setWidth 64)) :=
      entry_ram (h.tables _ t hl ht) (by rw [toNat_idx]; exact v.i0.isLt)
    have hs := h.store64 (fun _ _ _ _ _ _ => rfl) hf (pteFromPhysAddr pa (leafFlags flags))
    rw [← entryPtr_physToVirt] at hs
    refine ⟨true, _, ?_, ?_, h.setLeaf ht hv (pteFromPhysAddr pa (leafFlags flags))⟩
    · simp only [leafFlags] at hs ⊢
      simp only [RvOs.setLeaf, hlate, Option.bind_eq_bind, Option.bind_some, hv, Bool.false_eq_true, ite_false,
        Option.pure_def, hs]
    · simp only [RvOs.setLeaf, hearly, Option.bind_eq_bind, Option.bind_some, hv, Bool.false_eq_true, ite_false,
        Option.pure_def, phys_store64, leafFlags]

theorem mapFromLevel1_agree (hr : root ≠ 0) {t : Addr} (ht : tableAt s.mem root [(vpnOf va).i2] = some t)
    (pa flags : U64) :
    ∃ b s', mapFromLevel1 (.active sum root) physToVirt (physToVirt t) va pa flags s = some (b, s') ∧
      mapFromLevel1 .phys physToPtrEarly t va pa flags s = some (b, s') ∧ DirectMapped sum ram root s' := by
  simp only [mapFromLevel1, sv39Vpn1_eq, sv39Vpn0_eq, Option.bind_eq_bind]
  generalize vpnOf va = v at ht ⊢
  obtain ⟨r, s₁, hlate, hearly, h₁, htable⟩ := h.nextTable_agree hr ht (by simp) v.i1
  rw [hlate, hearly, Option.bind_some, Option.bind_some]
  cases r with
  | none => exact ⟨false, s₁, rfl, rfl, h₁⟩
  | some t' => exact h₁.setLeaf_agree (htable t' rfl) pa flags

/-- `paging_map` through the active root. -/
theorem pagingMap_agree (hr : root ≠ 0) (hv : physToVirt root ≠ 0) (va pa flags : U64) :
    ∃ b s', pagingMap (.active sum root) (physToVirt root) va pa flags s = some (b, s') ∧
      pagingMapEarly root va pa flags s = some (b, s') ∧ DirectMapped sum ram root s' := by
  rw [pagingMap, pagingMapEarly, pagingMapVia, pagingMapVia, if_neg hr, if_neg hv]
  by_cases h₁ : va &&& (PAGE_SIZE - 1) ≠ 0
  · rw [if_pos h₁, if_pos h₁]
    exact ⟨false, s, rfl, rfl, h⟩
  rw [if_neg h₁, if_neg h₁]
  by_cases h₂ : pa &&& (PAGE_SIZE - 1) ≠ 0
  · rw [if_pos h₂, if_pos h₂]
    exact ⟨false, s, rfl, rfl, h⟩
  rw [if_neg h₂, if_neg h₂, sv39Vpn2_eq]
  obtain ⟨r, s₁, hlate, hearly, hd, htable⟩ := h.nextTable_agree hr (tableAt_nil ..) (by simp) (vpnOf va).i2
  simp only [hlate, hearly, Option.bind_eq_bind, Option.bind_some]
  cases r with
  | none => exact ⟨false, s₁, rfl, rfl, hd⟩
  | some t => exact hd.mapFromLevel1_agree hr (htable t rfl) pa flags

theorem queryTable_agree (hq : tableAt s.mem root q = some f) (hql : q.length ≤ 1) (i : Idx) :
    queryTable (.active sum root) physToVirt (entryPtr (physToVirt f) (i.setWidth 64)) s.mem =
        some ((child s.mem f i).map physToVirt) ∧
      queryTable .phys physToPtrEarly (entryPtr f (i.setWidth 64)) s.mem = some (child s.mem f i) := by
  simp only [queryTable, h.load_entry (by omega) hq i, early_entry s.mem f i, Option.bind_eq_bind, Option.bind_some,
    child, pteTable]
  generalize entry s.mem f i = e
  cases pteIsValid e <;> cases pteIsLeaf e <;> exact ⟨rfl, rfl⟩

/-- `paging_query` through the active root. -/
theorem pagingQuery_agree (hr : root ≠ 0) (hv : physToVirt root ≠ 0) (va : U64) :
    ∃ t, pagingQuery (.active sum root) (physToVirt root) va s.mem = some t ∧
      pagingQueryEarly root va s.mem = some t := by
  rw [pagingQuery, pagingQueryEarly, pagingQueryVia, pagingQueryVia, if_neg hr, if_neg hv, sv39Vpn2_eq, sv39Vpn1_eq,
    sv39Vpn0_eq]
  simp only [Option.bind_eq_bind]
  obtain ⟨h₁, h₂⟩ := h.queryTable_agree (tableAt_nil ..) (by simp) (vpnOf va).i2
  rw [h₁, h₂, Option.bind_some, Option.bind_some]
  cases hc : child s.mem root (vpnOf va).i2 with
  | none => exact ⟨none, rfl, rfl⟩
  | some t =>
    have ht : tableAt s.mem root [(vpnOf va).i2] = some t := by rw [tableAt_one]; exact hc
    obtain ⟨h₁, h₂⟩ := h.queryTable_agree ht (by simp) (vpnOf va).i1
    simp only [Option.map_some, h₁, h₂, Option.bind_some]
    cases hc' : child s.mem t (vpnOf va).i1 with
    | none => exact ⟨none, rfl, rfl⟩
    | some t' =>
      have ht' : tableAt s.mem root [(vpnOf va).i2, (vpnOf va).i1] = some t' := by
        rw [tableAt_two, hc, Option.bind_some, hc']
      simp only [Option.map_some, h.load_entry (by simp) ht' (vpnOf va).i0, early_entry s.mem t' (vpnOf va).i0,
        Option.bind_some]
      split
      · exact ⟨none, rfl, rfl⟩
      · exact ⟨_, rfl, rfl⟩

end DirectMapped

end RvOs
