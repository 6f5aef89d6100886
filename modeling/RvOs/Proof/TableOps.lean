import RvOs.Proof.Tables

/-!
# Changing page tables

The two changes the mapping code makes: a fresh zeroed frame linked into a
free inner entry (`linkTable`, `Tables.link`), which leaves the address space
as it was, and a free leaf entry filled (`Tables.setLeaf`), which adds one page
to it. `Grows` is what any number of them, and of allocations between them,
may change: no valid entry, and no byte outside the tables and the frames
handed out.
-/

namespace RvOs

open PathTree

variable {m m' m₁ : Mem} {root f g : Addr} {cur cur' cur₁ : Nat} {p q : List Idx} {i j : Idx}

/-- The tables and the memory of `m'` grow from those of `m`, with the frames
from `cur` to `cur'`. -/
structure Grows (root : Addr) (m : Mem) (cur : Nat) (m' : Mem) (cur' : Nat) : Prop where
  le : cur ≤ cur'
  keep : ∀ p f, p.length ≤ 2 → tableAt m root p = some f → tableAt m' root p = some f
  fresh : ∀ p f, p.length ≤ 2 → tableAt m' root p = some f →
    tableAt m root p = some f ∨ Aligned f ∧ cur ≤ f.toNat ∧ f.toNat + 4096 ≤ cur'
  mem : ∀ a : Addr, a.toNat < cur ∨ cur' ≤ a.toNat →
    (∀ p f, p.length ≤ 2 → tableAt m root p = some f → ¬ InFrame f a) → m' a = m a
  entries : ∀ p f i, p.length ≤ 2 → tableAt m root p = some f → pteIsValid (entry m f i) = true →
    entry m' f i = entry m f i

theorem Grows.refl (root : Addr) (m : Mem) (cur : Nat) : Grows root m cur m cur :=
  ⟨Nat.le_refl _, fun _ _ _ h => h, fun _ _ _ h => .inl h, fun _ _ _ => rfl, fun _ _ _ _ _ _ => rfl⟩

theorem Grows.trans (h₁ : Grows root m cur m₁ cur₁) (h₂ : Grows root m₁ cur₁ m' cur') :
    Grows root m cur m' cur' := by
  have := h₁.le; have := h₂.le
  refine ⟨by omega, fun p f hp hf => h₂.keep p f hp (h₁.keep p f hp hf), fun p f hp hf => ?_,
    fun a ha hn => ?_, fun p f i hp hf hv => ?_⟩
  · rcases h₂.fresh p f hp hf with hf | hf
    · exact (h₁.fresh p f hp hf).imp id fun ⟨h, h', h''⟩ => ⟨h, h', by omega⟩
    · exact .inr ⟨hf.1, by omega, hf.2.2⟩
  · rw [h₂.mem a (by omega), h₁.mem a (by omega) hn]
    intro p f hp hf hin
    rcases h₁.fresh p f hp hf with hf | hf
    · exact hn p f hp hf hin
    · obtain ⟨hal, hf⟩ := hf
      unfold Aligned at hal
      unfold InFrame at hin
      omega
  · have e := h₁.entries p f i hp hf hv
    rw [h₂.entries p f i hp (h₁.keep p f hp hf) (by rw [e]; exact hv), e]

variable (m' cur') in
/-- Writes to frames handed out that are not linked. -/
theorem Grows.of_mem (h : Tables m root cur) (hc : cur ≤ cur')
    (he : ∀ a : Addr, a.toNat < cur ∨ cur' ≤ a.toNat → m' a = m a) :
    Grows root m cur m' cur' ∧ Tables m' root cur' ∧ space m' root = space m root ∧
      ∀ p, p.length ≤ 2 → tableAt m' root p = tableAt m root p := by
  have e : ∀ p f i, p.length ≤ 2 → tableAt m root p = some f → entry m' f i = entry m f i := by
    intro p f i hp hf
    have hfr := (h.frame p f hp hf).2
    have ha := h.aligned hp hf
    refine entry_congr ha (fun a ha' => he a (.inl ?_)) i
    unfold Aligned at ha
    unfold InFrame at ha'
    omega
  have ht : ∀ p, p.length ≤ 2 → tableAt m' root p = tableAt m root p := fun p hp =>
    tableAt_congr (fun p f i hp => e p f i (by omega)) hp
  exact ⟨⟨hc, fun p f hp hf => (ht p hp).trans hf, fun p f hp hf => .inl ((ht p hp) ▸ hf),
    fun a ha _ => he a ha, fun p f i hp hf _ => e p f i hp hf⟩, h.congr hc e, space_congr e, ht⟩

/-- A valid leaf entry stays where it is. -/
theorem Grows.space (h : Grows root m cur m' cur') {v : Vpn} {e : U64} (hv : space m root v = some e) :
    space m' root v = some e := by
  have hl : [v.i2, v.i1].length ≤ 2 := by simp
  simp only [RvOs.space, Option.bind_eq_some_iff] at hv ⊢
  obtain ⟨f, hf, he⟩ := hv
  refine ⟨f, h.keep _ f hl hf, ?_⟩
  have hvalid : pteIsValid (entry m f v.i0) = true := by
    cases hb : pteIsValid (entry m f v.i0) with
    | true => rfl
    | false => rw [pteLeaf, hb] at he; cases he
  rw [h.entries _ f v.i0 hl hf hvalid]
  exact he

/-! ## Linking a fresh table -/

/-- Memory with the zeroed frame `g` linked from entry `i` of the table at `f`. -/
def linkTable (m : Mem) (f : Addr) (i : Idx) (g : Addr) : Mem :=
  (zeroTable m g PAGE_TABLE_ENTRIES).write64 (entryPtr f (i.setWidth 64)) (pteFromPhysAddr g PTE_V)

theorem pteTable_link (hg : IsFrame g) : pteTable (pteFromPhysAddr g PTE_V) = some g := by
  have hlt : g.toNat < 2 ^ 56 := by have := hg.lt; omega
  rw [pteTable, pteIsValid_pte (by decide), pteIsLeaf_pointer g,
    physAddrFromPte_pte (by decide) hg.aligned hlt]
  rfl

theorem entry_link (hf : Aligned f) (hg : Aligned g) (hne : f ≠ g) {x : Addr} (hx : Aligned x) :
    entry (linkTable m f i g) x j =
      if x = f ∧ j = i then pteFromPhysAddr g PTE_V else if x = g then 0 else entry m x j := by
  rw [linkTable, entry_write hf hx]
  by_cases hxg : x = g
  · rw [if_pos hxg, hxg, if_neg fun h => hne h.1.symm, if_neg fun h => hne h.1.symm, entry_zeroTable hg]
  · rw [if_neg hxg, entry_zeroTable_ne hg hx hxg]

/-- The bytes of two frames. -/
theorem linkTable_apply (hf : Aligned f) (hg : Aligned g) {a : Addr} (ha : ¬ InFrame f a)
    (ha' : ¬ InFrame g a) : linkTable m f i g a = m a := by
  rw [linkTable, Mem.write64_apply fun h => ha (inFrame_of_entry hf (by rw [toNat_idx]; exact i.isLt) h)]
  exact zeroTable_apply hg ha' _ (Nat.le_refl _)

section Link

variable (h : TableTree m root) (hq : tableAt m root q = some f) (hql : q.length ≤ 1)
  (hgn : ∀ p, p.length ≤ 2 → tableAt m root p ≠ some g) (hg : IsFrame g)
  (he : pteIsValid (entry m f i) = false)

include hq hql hgn

theorem link_ne : f ≠ g := fun e => hgn q (by omega) (e ▸ hq)

include h hg

theorem entry_link_self : entry (linkTable m f i g) f i = pteFromPhysAddr g PTE_V := by
  have hf := h.aligned q f (by omega) hq
  rw [entry_link hf hg.aligned (link_ne hq hql hgn) hf, if_pos ⟨rfl, rfl⟩]

/-- The table linked is empty. -/
theorem entry_link_fresh (j : Idx) : entry (linkTable m f i g) g j = 0 := by
  have hne := link_ne hq hql hgn
  rw [entry_link (h.aligned q f (by omega) hq) hg.aligned hne hg.aligned, if_neg fun e => hne e.1.symm,
    if_pos rfl]

theorem entry_link_ne (p : List Idx) (x : Addr) (j : Idx) (hp : p.length ≤ 2)
    (hx : tableAt m root p = some x) (hn : ¬ (x = f ∧ j = i)) :
    entry (linkTable m f i g) x j = entry m x j := by
  have hxg : x ≠ g := fun e => hgn p hp (e ▸ hx)
  rw [entry_link (h.aligned q f (by omega) hq) hg.aligned (link_ne hq hql hgn) (h.aligned p x hp hx),
    if_neg hn, if_neg hxg]

include he

/-- Linking adds one path to the tables. -/
theorem tableAt_link (hp : p.length ≤ 2) :
    tableAt (linkTable m f i g) root p = if p = q ++ [i] then some g else tableAt m root p := by
  refine nodeAt_link (d := 2) h.tree hq (by omega) (child_eq_none he) ?_ (fun j => child_eq_none ?_)
    (fun p x j hp' hx hn => child_eq_of_entry (entry_link_ne h hq hql hgn hg p x j (by omega) hx hn)) hp
  · rw [child, entry_link_self h hq hql hgn hg, pteTable_link hg]
  · rw [entry_link_fresh h hq hql hgn hg]; rfl

theorem isTree_link : IsTree (child (linkTable m f i g)) root 2 := by
  refine h.tree.link hq (by omega) (child_eq_none he) hgn ?_ (fun j => child_eq_none ?_)
    (fun p x j hp' hx hn => child_eq_of_entry (entry_link_ne h hq hql hgn hg p x j (by omega) hx hn))
  · rw [child, entry_link_self h hq hql hgn hg, pteTable_link hg]
  · rw [entry_link_fresh h hq hql hgn hg]; rfl

/-- The valid entries stay. -/
theorem entry_link_valid (p : List Idx) (x : Addr) (j : Idx) (hp : p.length ≤ 2) (hx : tableAt m root p = some x)
    (hv : pteIsValid (entry m x j) = true) : entry (linkTable m f i g) x j = entry m x j := by
  refine entry_link_ne h hq hql hgn hg p x j hp hx fun hxj => ?_
  rw [hxj.1, hxj.2, he] at hv
  cases hv

end Link

section Link

variable (h : Tables m root cur) (hq : tableAt m root q = some f) (hql : q.length ≤ 1)
  (hcur : cur ≤ g.toNat) (hg : IsFrame g) (he : pteIsValid (entry m f i) = false)

include h hq hql

/-- The table changed is at one path only. -/
theorem linked_path (hp : p.length ≤ 2) (hpf : tableAt m root p = some f) : p = q :=
  h.tree p q f hp (by omega) hpf hq

include hg hcur

/-- No entry of the table linked is valid. -/
theorem link_fresh (j : Idx) : pteIsValid (entry (linkTable m f i g) g j) = false := by
  rw [entry_link_fresh h.toTree hq hql (h.fresh hcur) hg]
  rfl

include he

theorem link_tableAt (hp : p.length ≤ 2) :
    tableAt (linkTable m f i g) root p = if p = q ++ [i] then some g else tableAt m root p :=
  tableAt_link h.toTree hq hql (h.fresh hcur) hg he hp

theorem link_tables (hcur' : g.toNat + 4096 ≤ cur') : Tables (linkTable m f i g) root cur' := by
  have hgn := h.fresh hcur
  have ht := fun {p} => link_tableAt (p := p) h hq hql hcur hg he
  have hent := entry_link_ne (i := i) h.toTree hq hql hgn hg
  refine ⟨isTree_link h.toTree hq hql hgn hg he, fun p x hp hx => ?_, fun p x j hp hx hv => ?_,
    fun p x j hp hx hv => ?_⟩
  · rw [ht hp] at hx
    split at hx
    · cases hx
      exact ⟨hg, hcur'⟩
    · have := h.frame p x hp hx
      exact ⟨this.1, by omega⟩
  · rw [ht (by omega)] at hx
    split at hx
    · cases hx
      rw [link_fresh h hq hql hcur hg] at hv
      cases hv
    · by_cases hxi : x = f ∧ j = i
      · rw [hxi.1, hxi.2, entry_link_self h.toTree hq hql hgn hg]
        exact ⟨g, hg, rfl⟩
      · rw [hent p x j (by omega) hx hxi] at hv ⊢
        exact h.inner p x j hp hx hv
  · rw [ht (by omega)] at hx
    split at hx
    · cases hx
      rw [link_fresh h hq hql hcur hg] at hv
      cases hv
    · have hxf : x ≠ f := by
        rintro rfl
        have := linked_path h hq hql (by omega) hx
        subst this
        omega
      rw [hent p x j (by omega) hx fun e => hxf e.1] at hv ⊢
      exact h.leaf p x j hp hx hv

theorem link_grows (hcur' : g.toNat + 4096 ≤ cur') : Grows root m cur (linkTable m f i g) cur' := by
  have ht := fun {p} => link_tableAt (p := p) h hq hql hcur hg he
  have hnone : tableAt m root (q ++ [i]) = none := by
    rw [tableAt_concat, hq]
    exact child_eq_none he
  refine ⟨by omega, fun p x hp hx => ?_, fun p x hp hx => ?_, fun a ha hn => ?_, fun p x j hp hx hv => ?_⟩
  · rw [ht hp, if_neg fun e => by rw [e, hnone] at hx; cases hx]
    exact hx
  · rw [ht hp] at hx
    split at hx
    · cases hx
      exact .inr ⟨hg.aligned, hcur, hcur'⟩
    · exact .inl hx
  · refine linkTable_apply (h.aligned (by omega) hq) hg.aligned (hn q f (by omega) hq) ?_
    have := hg.aligned
    unfold Aligned at this
    unfold InFrame
    omega
  · exact entry_link_valid h.toTree hq hql (h.fresh hcur) hg he p x j hp hx hv

theorem link_space : space (linkTable m f i g) root = space m root := by
  funext v
  have hl2 : [v.i2, v.i1].length ≤ 2 := by simp
  simp only [RvOs.space]
  rw [link_tableAt h hq hql hcur hg he hl2]
  split
  · -- the fresh table was not there and is empty
    rename_i hv
    have hnone : tableAt m root (q ++ [i]) = none := by
      rw [tableAt_concat, hq]
      exact child_eq_none he
    have hleaf : pteLeaf (entry (linkTable m f i g) g v.i0) = none := by
      rw [pteLeaf, link_fresh h hq hql hcur hg]
      rfl
    rw [hv, hnone, Option.bind_some, hleaf, Option.bind_none]
  · cases hx : tableAt m root [v.i2, v.i1] with
    | none => simp only [Option.bind_none]
    | some x =>
      have hxf : x ≠ f := by
        rintro rfl
        have := linked_path h hq hql hl2 hx
        subst this
        simp at hql
      have hent := entry_link_ne (i := i) h.toTree hq hql (h.fresh hcur) hg
      simp only [Option.bind_some, hent _ x v.i0 hl2 hx fun e => hxf e.1]

theorem Tables.link (hcur' : g.toNat + 4096 ≤ cur') :
    Tables (linkTable m f i g) root cur' ∧ Grows root m cur (linkTable m f i g) cur' ∧
      space (linkTable m f i g) root = space m root :=
  ⟨link_tables h hq hql hcur hg he hcur', link_grows h hq hql hcur hg he hcur', link_space h hq hql hcur hg he⟩

end Link

/-! ## Filling a leaf entry -/

/-- Writing an entry of a last-level table changes no entry above it. -/
theorem entry_setLeaf (h : TableTree m root) {v : Vpn} (hf : tableAt m root [v.i2, v.i1] = some f) (e : U64)
    (p : List Idx) (x : Addr) (j : Idx) (hp : p.length ≤ 1) (hx : tableAt m root p = some x) :
    entry (m.write64 (entryPtr f (v.i0.setWidth 64)) e) x j = entry m x j := by
  have hl : [v.i2, v.i1].length ≤ 2 := by simp
  rw [entry_write (h.aligned _ f hl hf) (h.aligned p x (by omega) hx), if_neg]
  intro hxj
  have := h.tree p _ f (by omega) hl (hxj.1 ▸ hx) hf
  subst this
  simp at hp

section SetLeaf

variable {v : Vpn} {e : U64} (h : Tables m root cur) (hf : tableAt m root [v.i2, v.i1] = some f)

include h hf

theorem setLeaf_entry (hx : Aligned g) (j : Idx) : entry (m.write64 (entryPtr f (v.i0.setWidth 64)) e) g j =
    if g = f ∧ j = v.i0 then e else entry m g j :=
  entry_write (h.aligned (by simp) hf) hx e

theorem setLeaf_tableAt (hp : p.length ≤ 2) :
    tableAt (m.write64 (entryPtr f (v.i0.setWidth 64)) e) root p = tableAt m root p :=
  tableAt_congr (entry_setLeaf h.toTree hf e) hp

theorem setLeaf_tables (hl : pteIsLeaf e = true) : Tables (m.write64 (entryPtr f (v.i0.setWidth 64)) e) root cur := by
  have ht := fun {p} => setLeaf_tableAt (p := p) (e := e) h hf
  have hinner := entry_setLeaf h.toTree hf e
  refine ⟨h.tree.congr fun p x j hp hx => child_eq_of_entry (hinner p x j (by omega) hx),
    fun p x hp hx => h.frame p x hp (ht hp ▸ hx), fun p x j hp hx hv => ?_, fun p x j hp hx hv => ?_⟩
  · rw [ht (by omega)] at hx
    rw [hinner p x j hp hx] at hv ⊢
    exact h.inner p x j hp hx hv
  · rw [ht (by omega)] at hx
    rw [setLeaf_entry h hf (h.aligned (by omega) hx)] at hv ⊢
    split at hv
    · rw [if_pos ‹_›]
      exact hl
    · rw [if_neg ‹_›]
      exact h.leaf p x j hp hx hv

theorem setLeaf_grows (he : pteIsValid (entry m f v.i0) = false) :
    Grows root m cur (m.write64 (entryPtr f (v.i0.setWidth 64)) e) cur := by
  have ht := fun {p} => setLeaf_tableAt (p := p) (e := e) h hf
  have hl2 : [v.i2, v.i1].length ≤ 2 := by simp
  refine ⟨Nat.le_refl _, fun p x hp hx => (ht hp).trans hx, fun p x hp hx => .inl (ht hp ▸ hx),
    fun a ha hn => ?_, fun p x j hp hx hv => ?_⟩
  · refine Mem.write64_apply fun hin => hn _ f hl2 hf (inFrame_of_entry (h.aligned hl2 hf) ?_ hin)
    rw [toNat_idx]
    exact v.i0.isLt
  · rw [setLeaf_entry h hf (h.aligned hp hx), if_neg]
    rintro ⟨rfl, rfl⟩
    rw [he] at hv
    cases hv

theorem setLeaf_space (hv : pteIsValid e = true) (hl : pteIsLeaf e = true) :
    space (m.write64 (entryPtr f (v.i0.setWidth 64)) e) root = Function.update (space m root) v (some e) := by
  have hl2 : ∀ w : Vpn, [w.i2, w.i1].length ≤ 2 := fun w => by simp
  funext w
  simp only [RvOs.space]
  rw [setLeaf_tableAt h hf (hl2 w)]
  by_cases hw : w = v
  · subst hw
    rw [hf, Option.bind_some, setLeaf_entry h hf (h.aligned (hl2 w) hf), if_pos ⟨rfl, rfl⟩, pteLeaf, hv, hl,
      Function.update_self]
    rfl
  · rw [Function.update_of_ne hw, RvOs.space]
    cases hx : tableAt m root [w.i2, w.i1] with
    | none => simp only [Option.bind_none]
    | some x =>
      rw [Option.bind_some, Option.bind_some, setLeaf_entry h hf (h.aligned (hl2 w) hx), if_neg]
      rintro ⟨rfl, hi0⟩
      have hpath := h.tree _ _ x (hl2 w) (hl2 v) hx hf
      simp only [List.cons.injEq, and_true] at hpath
      exact hw (Vpn.ext_idx hpath.1 hpath.2 hi0)

theorem Tables.setLeaf (he : pteIsValid (entry m f v.i0) = false) (hv : pteIsValid e = true)
    (hl : pteIsLeaf e = true) : Tables (m.write64 (entryPtr f (v.i0.setWidth 64)) e) root cur ∧
      Grows root m cur (m.write64 (entryPtr f (v.i0.setWidth 64)) e) cur ∧
      space (m.write64 (entryPtr f (v.i0.setWidth 64)) e) root =
        Function.update (space m root) v (some e) :=
  ⟨setLeaf_tables h hf hl, setLeaf_grows h hf he, setLeaf_space h hf hv hl⟩

end SetLeaf

end RvOs
