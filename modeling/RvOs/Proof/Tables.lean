import RvOs.Proof.Allocator
import RvOs.Spec.PageTables

/-!
# Page tables in memory

Entries of different tables are apart (`entry_write`). Linking a zeroed frame
(`Tables.link`) and filling a free leaf entry (`Tables.leaf`) keep the invariant
of the page tables.
-/

namespace RvOs

open PathTree

theorem tableAt_nil (m : Mem) (root : Addr) : tableAt m root [] = some root := nodeAt_nil ..

theorem tableAt_concat (m : Mem) (root : Addr) (p : List Idx) (i : Idx) :
    tableAt m root (p ++ [i]) = (tableAt m root p).bind (child m · i) := nodeAt_concat ..

/-! ## Entries apart -/

section Entries

variable {m : Mem} {f g : Addr} {i j : Idx}

theorem toNat_entryPtr {i : U64} (hf : Aligned f) (hi : i.toNat < 512) :
    (entryPtr f i).toNat = f.toNat + 8 * i.toNat := by
  have := f.isLt
  unfold Aligned at hf
  rw [entryPtr, BitVec.toNat_add, BitVec.toNat_mul, show (8 : U64).toNat = 8 from rfl]
  omega

theorem toNat_idx (i : Idx) : (i.setWidth 64).toNat = i.toNat := by
  rw [BitVec.toNat_setWidth]; have := i.isLt; omega

theorem entryPtr_offset (f o i : U64) : entryPtr (f + o) i = entryPtr f i + o := by
  rw [entryPtr, entryPtr, BitVec.add_assoc, BitVec.add_comm o, BitVec.add_assoc]

/-- An entry's bytes are bytes of its table. -/
theorem inFrame_of_entry {i : U64} (hf : Aligned f) (hi : i.toNat < 512) {a : Addr}
    (h : (a - entryPtr f i).toNat < 8) : InFrame f a := by
  have hp := toNat_entryPtr hf hi
  have := a.isLt; have := f.isLt
  unfold Aligned at hf
  rw [BitVec.toNat_sub, hp] at h
  unfold InFrame
  omega

theorem entry_sep {k l : U64} (hf : Aligned f) (hg : Aligned g) (hk : k.toNat < 512) (hl : l.toNat < 512)
    (h : f ≠ g ∨ k ≠ l) : Mem.Sep (entryPtr f k) 8 (entryPtr g l) 8 := by
  have h : f.toNat ≠ g.toNat ∨ k.toNat ≠ l.toNat := h.imp (mt BitVec.eq_of_toNat_eq) (mt BitVec.eq_of_toNat_eq)
  have := f.isLt; have := g.isLt
  have ef := toNat_entryPtr hf hk
  have eg := toNat_entryPtr hg hl
  unfold Aligned at hf hg
  exact Mem.Sep.of_le (by omega) (by omega) (by omega)

theorem idx_ne (h : i ≠ j) : i.setWidth 64 ≠ j.setWidth 64 := fun e =>
  h (BitVec.eq_of_toNat_eq (by rw [← toNat_idx i, ← toNat_idx j, e]))

/-- Writing one entry. -/
theorem entry_write (hf : Aligned f) (hg : Aligned g) (v : U64) :
    entry (m.write64 (entryPtr f (i.setWidth 64)) v) g j = if g = f ∧ j = i then v else entry m g j := by
  split
  · rename_i h
    rw [h.1, h.2]; exact Mem.read64_write64_self _ _ _
  · rename_i h
    refine Mem.read64_write64_sep (entry_sep hg hf (by rw [toNat_idx]; exact j.isLt)
      (by rw [toNat_idx]; exact i.isLt) ?_)
    by_cases hgf : g = f
    · exact Or.inr (idx_ne fun e => h ⟨hgf, e⟩)
    · exact Or.inl hgf

/-- Memory that agrees on a frame has the same entries there. -/
theorem entry_congr {m' : Mem} (hf : Aligned f) (h : ∀ a, InFrame f a → m' a = m a) (i : Idx) :
    entry m' f i = entry m f i :=
  Mem.read64_congr fun _ hx => h _ (inFrame_of_entry hf (by rw [toNat_idx]; exact i.isLt) hx)

/-- Memory after the first `n` iterations of `paging_zero_table` on the frame `f`. -/
def zeroTable (m : Mem) (f : Addr) : Nat → Mem
  | 0 => m
  | n + 1 => (zeroTable m f n).write64 (entryPtr f (BitVec.ofNat 64 n)) 0

theorem pagingZeroTable_offset (o : U64) (m : Mem) (f : Addr) :
    pagingZeroTable (.offset o) (f + o) m = some (zeroTable m f PAGE_TABLE_ENTRIES) := by
  suffices h : ∀ n, zeroEntries (.offset o) (f + o) m n = some (zeroTable m f n) from h _
  intro n
  induction n with
  | zero => rfl
  | succ n ih =>
    rw [zeroEntries, ih, entryPtr_offset]
    exact View.offset_store64 ..

theorem zeroTable_apply (hf : Aligned f) {a : Addr} (ha : ¬ InFrame f a) :
    ∀ n ≤ 512, zeroTable m f n a = m a
  | 0, _ => rfl
  | n + 1, hn => by
    have hn' : (BitVec.ofNat 64 n).toNat < 512 := by rw [BitVec.toNat_ofNat]; omega
    rw [zeroTable, Mem.write64_apply fun h => ha (inFrame_of_entry hf hn' h),
      zeroTable_apply hf ha n (by omega)]

theorem entry_zeroTable_lt (hf : Aligned f) : ∀ n ≤ 512, i.toNat < n → entry (zeroTable m f n) f i = 0
  | n + 1, hn, hi => by
    have hn' : (BitVec.ofNat 64 n).toNat = n := by rw [BitVec.toNat_ofNat]; omega
    rw [zeroTable]
    by_cases h : i.toNat = n
    · have : i.setWidth 64 = BitVec.ofNat 64 n := BitVec.eq_of_toNat_eq (by rw [toNat_idx, hn', h])
      rw [entry, this]; exact Mem.read64_write64_self _ _ _
    · refine (Mem.read64_write64_sep (entry_sep hf hf (by rw [toNat_idx]; exact i.isLt) (by omega)
        (Or.inr fun e => h ?_))).trans (entry_zeroTable_lt hf n (by omega) (by omega))
      rw [← toNat_idx, e, hn']

/-- A zeroed table has no entries. -/
theorem entry_zeroTable (hf : Aligned f) (i : Idx) : entry (zeroTable m f PAGE_TABLE_ENTRIES) f i = 0 :=
  entry_zeroTable_lt hf _ (Nat.le_refl _) i.isLt

theorem entry_zeroTable_ne (hf : Aligned f) (hg : Aligned g) (h : g ≠ f) (i : Idx) :
    entry (zeroTable m f PAGE_TABLE_ENTRIES) g i = entry m g i := by
  refine entry_congr hg (fun a ha => zeroTable_apply hf (fun hfa => h ?_) _ (Nat.le_refl _)) i
  unfold InFrame at ha hfa
  unfold Aligned at hf hg
  exact BitVec.eq_of_toNat_eq (by omega)

end Entries

/-! ## The invariant -/

section Tables

variable {m m' : Mem} {root f g : Addr} {cur cur' : Nat} {p q : List Idx} {i : Idx}

theorem child_eq_of_entry {m' : Mem} (h : entry m' f i = entry m f i) : child m' f i = child m f i := by
  rw [child, child, h]

theorem child_eq_none (h : pteIsValid (entry m f i) = false) : child m f i = none := by
  rw [child, pteTable, h]; rfl

theorem Tables.toTree (h : Tables m root cur) : TableTree m root :=
  ⟨h.tree, fun p f hp hf => (h.frame p f hp hf).1.aligned⟩

theorem Tables.aligned (h : Tables m root cur) (hp : p.length ≤ 2) (hf : tableAt m root p = some f) :
    Aligned f := (h.frame p f hp hf).1.aligned

/-- A pointer to a table is not a leaf. -/
theorem pteIsLeaf_pointer (g : Addr) : pteIsLeaf (pteFromPhysAddr g PTE_V) = false := by
  rw [pteIsLeaf_pte (by decide)]; rfl

theorem Tables.not_leaf (h : Tables m root cur) (hp : p.length ≤ 1) (hf : tableAt m root p = some f)
    (hv : pteIsValid (entry m f i) = true) : pteIsLeaf (entry m f i) = false := by
  obtain ⟨g, -, e⟩ := h.inner p f i hp hf hv
  rw [e]; exact pteIsLeaf_pointer g

/-- A frame at or past `cur` is not a table. -/
theorem Tables.fresh (h : Tables m root cur) (hg : cur ≤ g.toNat) :
    ∀ p, p.length ≤ 2 → tableAt m root p ≠ some g := fun p hp hf => by
  have := (h.frame p g hp hf).2
  omega

/-- Memory that agrees on the tables. -/
theorem tableAt_congr
    (he : ∀ p f i, p.length ≤ 1 → tableAt m root p = some f → entry m' f i = entry m f i) :
    p.length ≤ 2 → tableAt m' root p = tableAt m root p :=
  nodeAt_congr (d := 2) fun p x i hp hx => child_eq_of_entry (he p x i (by omega) hx)

theorem Tables.congr (h : Tables m root cur) (hc : cur ≤ cur')
    (he : ∀ p f i, p.length ≤ 2 → tableAt m root p = some f → entry m' f i = entry m f i) :
    Tables m' root cur' := by
  have e : ∀ {p}, p.length ≤ 2 → tableAt m' root p = tableAt m root p := fun hp =>
    tableAt_congr (fun p f i hp => he p f i (by omega)) hp
  refine ⟨h.tree.congr fun p x i hp hx => child_eq_of_entry (he p x i (by omega) hx),
    fun p f hp hf => ?_, fun p f i hp hf hv => ?_, fun p f i hp hf hv => ?_⟩
  · rw [e hp] at hf
    exact ⟨(h.frame p f hp hf).1, Nat.le_trans (h.frame p f hp hf).2 hc⟩
  · rw [e (by omega)] at hf
    rw [he p f i (by omega) hf] at hv ⊢
    exact h.inner p f i hp hf hv
  · rw [e (by omega)] at hf
    rw [he p f i (by omega) hf] at hv ⊢
    exact h.leaf p f i hp hf hv

/-- Memory that agrees on the tables has the same address space. -/
theorem space_congr
    (he : ∀ p f i, p.length ≤ 2 → tableAt m root p = some f → entry m' f i = entry m f i) :
    space m' root = space m root := by
  funext v
  simp only [space]
  have hl : [v.i2, v.i1].length ≤ 2 := by simp
  have e : tableAt m' root [v.i2, v.i1] = tableAt m root [v.i2, v.i1] :=
    tableAt_congr (fun p f i hp => he p f i (by omega)) hl
  rw [e]
  cases hf : tableAt m root [v.i2, v.i1] with
  | none => simp only [Option.bind_none]
  | some f => simp only [Option.bind_some, he _ f v.i0 hl hf]

end Tables

end RvOs
