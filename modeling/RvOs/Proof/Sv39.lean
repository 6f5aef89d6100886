import RvOs.Spec.Sv39
import RvOs.Proof.MapCorrect

/-!
# The software walk and the hardware walk

On tables with the invariant Sv39 translates the canonical addresses whose
leaves are legal (`LegalLeaf`) as the address space does (`sv39Translate_eq`),
and no others (`sv39Translate_some`).
-/

namespace RvOs

variable {m : Mem} {root f : Addr} {cur : Nat} {va : U64}

theorem hasFlag_pte {pa flags mask : U64} (hf : flags.toNat < 2 ^ 10)
    (hm : mask.toNat < 2 ^ 10) : hasFlag (pteFromPhysAddr pa flags) mask = hasFlag flags mask := by
  rw [hasFlag, hasFlag, pte_and_flags hf hm]

theorem hasFlag_or (e a b : U64) : hasFlag e (a ||| b) = (hasFlag e a || hasFlag e b) := by
  have h : e &&& (a ||| b) = (e &&& a) ||| (e &&& b) := by
    ext i hi; simp only [BitVec.getElem_and, BitVec.getElem_or]; cases e[i] <;> simp
  have hz : ∀ x y : U64, x ||| y = 0 ↔ x = 0 ∧ y = 0 := fun x y => by
    refine ⟨fun h => ?_, by rintro ⟨rfl, rfl⟩; rfl⟩
    have hb := fun i (hi : i < 64) => congrArg (·.getLsbD i) h
    simp only [BitVec.getLsbD_or] at hb
    constructor <;> refine BitVec.eq_of_getLsbD_eq fun i hi => ?_ <;>
    · have := hb i hi; simp at this ⊢; simp [this]
  rw [Bool.eq_iff_iff]
  simp only [hasFlag, bne_iff_ne, Bool.or_eq_true, h, ne_eq, hz]
  exact Classical.not_and_iff_not_or_not

theorem pteIsLeaf_eq (e : U64) : pteIsLeaf e = (hasFlag e (PTE_R ||| PTE_X) || hasFlag e PTE_W) := by
  rw [pteIsLeaf, ← hasFlag, hasFlag_or, hasFlag_or, hasFlag_or]
  cases hasFlag e PTE_R <;> cases hasFlag e PTE_W <;> cases hasFlag e PTE_X <;> rfl

theorem pte_high {pa flags : U64} (hpa : pa.toNat < 2 ^ 56) (hf : flags.toNat < 2 ^ 10) :
    pteFromPhysAddr pa flags >>> 54 = 0 := by
  apply BitVec.eq_of_toNat_eq
  rw [BitVec.toNat_ushiftRight, toNat_pte hf, Nat.shiftRight_eq_div_pow]
  exact Nat.div_eq_of_lt (by omega)

theorem hasFlag_leafFlags (flags mask : U64) :
    hasFlag (leafFlags flags) mask = (hasFlag flags mask || hasFlag (PTE_V ||| PTE_A ||| PTE_D) mask) := by
  have hc : ∀ a b : U64, hasFlag a b = hasFlag b a := fun a b => by rw [hasFlag, hasFlag, BitVec.and_comm]
  rw [leafFlags, hc, BitVec.or_assoc, BitVec.or_assoc, hasFlag_or, hc mask, hc mask, ← BitVec.or_assoc]

theorem hasFlag_leafFlags_of {flags mask : U64} (h : hasFlag (PTE_V ||| PTE_A ||| PTE_D) mask = false) :
    hasFlag (leafFlags flags) mask = hasFlag flags mask := by
  rw [hasFlag_leafFlags, h, Bool.or_false]

/-- The leaves the mapping code writes are legal. -/
theorem legalLeaf_pte {pa flags : U64} (hpa : pa.toNat < 2 ^ 56) (hf : LegalFlags flags) :
    LegalLeaf (pteFromPhysAddr pa (leafFlags flags)) := by
  have hlt := leafFlags_lt hf.lt
  have hl := hf.leaf
  have hw := hf.write
  rw [pteIsLeaf_eq, hasFlag_or] at hl
  refine ⟨?_, ?_⟩
  · rw [pteReserved, hasFlag_pte hlt (by decide), hasFlag_pte hlt (by decide),
      hasFlag_leafFlags_of (by decide), hasFlag_leafFlags_of (by decide), pte_high hpa hlt]
    cases hr : hasFlag flags PTE_R <;> cases hw' : hasFlag flags PTE_W <;> simp_all
  · rw [hasFlag_pte hlt (by decide), hasFlag_leafFlags_of (by decide), hasFlag_or]
    cases hr : hasFlag flags PTE_R <;> cases hw' : hasFlag flags PTE_W <;> simp_all

/-! ## The walk -/

theorem read_entry2 (m : Mem) (f : Addr) (va : U64) :
    m.read64 (f + ((va >>> (12 + 9 * 2)) &&& 0x1FF) * 8) = entry m f (vpnOf va).i2 := by
  rw [entry, ← sv39Vpn2_eq]; rfl

theorem read_entry1 (m : Mem) (f : Addr) (va : U64) :
    m.read64 (f + ((va >>> (12 + 9 * 1)) &&& 0x1FF) * 8) = entry m f (vpnOf va).i1 := by
  rw [entry, ← sv39Vpn1_eq]; rfl

theorem read_entry0 (m : Mem) (f : Addr) (va : U64) :
    m.read64 (f + ((va >>> (12 + 9 * 0)) &&& 0x1FF) * 8) = entry m f (vpnOf va).i0 := by
  rw [entry, ← sv39Vpn0_eq]; rfl

/-- An inner level of the walk: an invalid entry faults, a pointer is followed. -/
theorem sv39Walk_inner (h : Tables m root cur) {p : List Idx} (hp : p.length ≤ 1)
    (hf : tableAt m root p = some f) {i : Idx} {level : Nat}
    (hr : m.read64 (f + ((va >>> (12 + 9 * (level + 1))) &&& 0x1FF) * 8) = entry m f i) :
    sv39Walk m va (level + 1) f = (child m f i).bind (sv39Walk m va level) := by
  rw [sv39Walk]
  simp only [hr, child, pteTable]
  cases hv : pteIsValid (entry m f i) with
  | false => rfl
  | true =>
    have hnl := h.not_leaf hp hf hv
    obtain ⟨g, hg, he⟩ := h.inner p f i hp hf hv
    have hlt : g.toNat < 2 ^ 56 := by have := hg.lt; omega
    have hres : pteReserved (entry m f i) = false := by
      rw [he, pteReserved, hasFlag_pte (by decide) (by decide), hasFlag_pte (by decide) (by decide),
        pte_high hlt (by decide)]
      rfl
    have hrx : hasFlag (entry m f i) (PTE_R ||| PTE_X) = false := by
      rw [he, hasFlag_pte (by decide) (by decide)]; rfl
    have hu : hasFlag (entry m f i) (PTE_U ||| PTE_A ||| PTE_D) = false := by
      rw [he, hasFlag_pte (by decide) (by decide)]; rfl
    simp only [hres, hrx, hu, hnl, Bool.not_true, Bool.or_self, Bool.false_eq_true, ite_false,
      Bool.not_false, Bool.and_self, ite_true, Option.bind_some]

/-- The last level of the walk, at a leaf Sv39 accepts. -/
theorem sv39Walk_last (h : Tables m root cur) (hl : ∀ e, space m root (vpnOf va) = some e → LegalLeaf e)
    (hf : tableAt m root [(vpnOf va).i2, (vpnOf va).i1] = some f) :
    sv39Walk m va 0 f = (pteLeaf (entry m f (vpnOf va).i0)).map fun e =>
      (physAddrFromPte e + (va &&& (PAGE_SIZE - 1)), e) := by
  rw [sv39Walk]
  simp only [read_entry0, pteLeaf]
  cases hv : pteIsValid (entry m f (vpnOf va).i0) with
  | false => rfl
  | true =>
    have hle := h.leaf _ f (vpnOf va).i0 rfl hf hv
    have hleg := hl (entry m f (vpnOf va).i0) (by
      rw [space, hf, Option.bind_some, pteLeaf, hv, hle]; rfl)
    have hoff : ∀ x : U64, levelOffset 0 x = x &&& (PAGE_SIZE - 1) := fun x => rfl
    have hz : physAddrFromPte (entry m f (vpnOf va).i0) &&& (PAGE_SIZE - 1) = 0 :=
      (aligned_iff _).mpr (physAddrFromPte_bits _).2
    simp only [hleg.reserved, hleg.leaf, hle, hoff, hz, Bool.not_true, Bool.or_self, Bool.false_eq_true,
      ite_false, ne_eq, not_true_eq_false, ite_true, Bool.and_self, Option.map_some]

/-- The walk ends in the last-level table of the page, if it is there. -/
theorem sv39Translate_last (h : Tables m root cur) (hc : Canonical va) :
    sv39Translate m root va = ((tableAt m root [(vpnOf va).i2, (vpnOf va).i1]).bind
      (sv39Walk m va 0)).map fun (pa, pte) => (pa, pte &&& 0x3FF) := by
  rw [sv39Translate, if_pos hc, sv39Walk_inner h (by simp) (tableAt_nil ..) (read_entry2 m root va), tableAt_two]
  cases h1 : child m root (vpnOf va).i2 with
  | none => simp only [Option.bind_none]
  | some t =>
    have ht : tableAt m root [(vpnOf va).i2] = some t := by rw [tableAt_one]; exact h1
    simp only [Option.bind_some]
    rw [sv39Walk_inner h (by simp) ht (read_entry1 m t va)]

/-- Sv39 translates an address as the address space of the tables, if its leaf is legal. -/
theorem sv39Translate_eq (h : Tables m root cur) (hl : ∀ e, space m root (vpnOf va) = some e → LegalLeaf e)
    (hc : Canonical va) : sv39Translate m root va = (space m root).translate va := by
  rw [sv39Translate_last h hc, AddrSpace.translate, space]
  cases hf : tableAt m root [(vpnOf va).i2, (vpnOf va).i1] with
  | none => simp only [Option.bind_none, Option.map_none]
  | some f =>
    simp only [Option.bind_some]
    rw [sv39Walk_last h hl hf, Option.map_map]
    rfl

/-- An address Sv39 translates has a leaf, which is not reserved, and translates by it. -/
theorem sv39Translate_some (h : Tables m root cur) {pa fl : U64} (ht : sv39Translate m root va = some (pa, fl)) :
    Canonical va ∧ ∃ e, space m root (vpnOf va) = some e ∧ pteReserved e = false ∧
      leafAt e (va &&& (PAGE_SIZE - 1)) = (pa, fl) := by
  have hc : Canonical va := by
    by_contra hc
    rw [sv39Translate, if_neg hc] at ht
    cases ht
  refine ⟨hc, ?_⟩
  suffices hl : ∀ e, space m root (vpnOf va) = some e → LegalLeaf e by
    rw [sv39Translate_eq h hl hc, AddrSpace.translate, Option.map_eq_some_iff] at ht
    obtain ⟨e, he, hle⟩ := ht
    exact ⟨e, he, (hl e he).reserved, hle⟩
  intro e he
  rw [sv39Translate_last h hc] at ht
  rw [space] at he
  cases hf : tableAt m root [(vpnOf va).i2, (vpnOf va).i1] with
  | none => rw [hf] at he; cases he
  | some f =>
    rw [hf, Option.bind_some] at ht he
    rw [sv39Walk] at ht
    simp only [read_entry0] at ht
    rw [pteLeaf] at he
    generalize entry m f (vpnOf va).i0 = x at ht he
    split at he
    · obtain rfl := Option.some.inj he
      split at ht
      · cases ht
      split at ht
      · rename_i hr hl
        simp only [Bool.or_eq_true, not_or, Bool.not_eq_true] at hr
        exact ⟨hr.2, hl⟩
      · cases ht
    · cases he

/-! ## What keeps translations -/

section Keep

variable {m' : Mem}

/-- Entry `i` of a table, where `i` is a field of the address. -/
theorem read_entry (m : Mem) (f : Addr) (va : U64) (n : Nat) :
    m.read64 (f + ((va >>> n) &&& 0x1FF) * 8) = entry m f (va.extractLsb' n 9) := by
  have hi : (va >>> n) &&& 0x1FF = (va.extractLsb' n 9).setWidth 64 := by
    apply BitVec.eq_of_toNat_eq
    rw [Bits.toNat_field va (k := 9) (by decide), toNat_idx, BitVec.extractLsb'_toNat, Nat.shiftRight_eq_div_pow]
  rw [hi]
  rfl

/-- The tables keep their valid entries. -/
def KeepsValid (root : Addr) (m m' : Mem) : Prop :=
  ∀ p f i, p.length ≤ 2 → tableAt m root p = some f → pteIsValid (entry m f i) = true → entry m' f i = entry m f i

/-- A step of the walk, by the entry it reads. -/
theorem sv39Walk_zero (e : U64) (he : entry m f (va.extractLsb' 12 9) = e) : sv39Walk m va 0 f =
    if !pteIsValid e || pteReserved e then none
    else if hasFlag e (PTE_R ||| PTE_X) then
      if levelOffset 0 (physAddrFromPte e) ≠ 0 then none
      else some (physAddrFromPte e + levelOffset 0 va, e)
    else none := by
  rw [sv39Walk]
  simp only [read_entry, Nat.mul_zero, Nat.add_zero, he]

theorem sv39Walk_succ (level : Nat) (e : U64) (he : entry m f (va.extractLsb' (12 + 9 * (level + 1)) 9) = e) :
    sv39Walk m va (level + 1) f =
    if !pteIsValid e || pteReserved e then none
    else if hasFlag e (PTE_R ||| PTE_X) then
      if levelOffset (level + 1) (physAddrFromPte e) ≠ 0 then none
      else some (physAddrFromPte e + levelOffset (level + 1) va, e)
    else if hasFlag e (PTE_U ||| PTE_A ||| PTE_D) then none
    else sv39Walk m va level (physAddrFromPte e) := by
  rw [sv39Walk]
  simp only [read_entry, he]

/-- A pointer the walk follows is a pointer to a table. -/
theorem pteTable_of_walk {e : U64} (hv : pteIsValid e = true) (hr : pteReserved e = false)
    (hl : hasFlag e (PTE_R ||| PTE_X) = false) : pteTable e = some (physAddrFromPte e) := by
  have hw : hasFlag e PTE_W = false := by
    simp only [pteReserved, Bool.or_eq_false_iff] at hr
    rw [hasFlag_or, Bool.or_eq_false_iff] at hl
    simpa [hl.1] using hr.1
  have hleaf : pteIsLeaf e = false := by rw [pteIsLeaf_eq, hl, hw]; rfl
  rw [pteTable, hv, hleaf]
  rfl

/-- A walk that finds a leaf has read a valid entry. -/
theorem sv39Walk_valid {r : U64 × U64} {level : Nat} (h : sv39Walk m va level f = some r) :
    pteIsValid (entry m f (va.extractLsb' (12 + 9 * level) 9)) = true := by
  by_contra hn
  cases level with
  | zero =>
    rw [sv39Walk_zero _ rfl, Bool.eq_false_iff.mpr hn] at h
    cases h
  | succ level =>
    rw [sv39Walk_succ level _ rfl, Bool.eq_false_iff.mpr hn] at h
    cases h

theorem sv39Walk_keep (hk : KeepsValid root m m') {r : U64 × U64} (level : Nat) :
    ∀ (p : List Idx) (f : Addr), p.length + level = 2 → tableAt m root p = some f →
      sv39Walk m va level f = some r → sv39Walk m' va level f = some r := by
  induction level with
  | zero =>
    intro p f hp hf h
    have he := hk p f _ (by omega) hf (sv39Walk_valid h)
    rw [sv39Walk_zero _ rfl] at h
    rw [sv39Walk_zero _ he]
    exact h
  | succ level ih =>
    intro p f hp hf h
    have hv := sv39Walk_valid h
    have he := hk p f _ (by omega) hf hv
    rw [sv39Walk_succ level _ rfl] at h
    rw [sv39Walk_succ level _ he]
    split at h
    · cases h
    rename_i hres
    split at h
    · rw [if_neg hres, if_pos ‹_›]
      exact h
    rename_i hl
    split at h
    · cases h
    rename_i hu
    rw [if_neg hres, if_neg hl, if_neg hu]
    simp only [Bool.or_eq_true, not_or, Bool.not_eq_true] at hres hl
    refine ih (p ++ [va.extractLsb' (12 + 9 * (level + 1)) 9]) _ ?_ ?_ h
    · rw [List.length_append, List.length_singleton]
      omega
    · rw [tableAt_concat, hf, Option.bind_some, child]
      exact pteTable_of_walk hv hres.2 hl

/-- Memory that agrees on the tables has the same translations. -/
theorem sv39Translate_congr (h : Tables m root cur)
    (he : ∀ p f i, p.length ≤ 2 → tableAt m root p = some f → entry m' f i = entry m f i) (va : U64) :
    sv39Translate m' root va = sv39Translate m root va := by
  by_cases hc : Canonical va
  · have hl : [(vpnOf va).i2, (vpnOf va).i1].length ≤ 2 := by simp
    rw [sv39Translate_last (h.congr (Nat.le_refl _) he) hc, sv39Translate_last h hc,
      tableAt_congr (fun p f i hp => he p f i (by omega)) hl]
    cases hf : tableAt m root [(vpnOf va).i2, (vpnOf va).i1] with
    | none => simp only [Option.bind_none]
    | some f =>
      have hentry := he _ f (vpnOf va).i0 hl hf
      have hwalk : sv39Walk m' va 0 f = sv39Walk m va 0 f := by
        rw [sv39Walk, sv39Walk]
        simp only [read_entry0, hentry]
      rw [Option.bind_some, Option.bind_some, hwalk]
  · rw [sv39Translate, sv39Translate, if_neg hc, if_neg hc]

/-- A change that keeps the valid entries keeps the translations. -/
theorem sv39Translate_keep (hk : KeepsValid root m m') {r : U64 × U64} (h : sv39Translate m root va = some r) :
    sv39Translate m' root va = some r := by
  rw [sv39Translate] at h ⊢
  split at h
  · rw [if_pos ‹_›]
    rw [Option.map_eq_some_iff] at h ⊢
    obtain ⟨x, hx, hr⟩ := h
    exact ⟨x, sv39Walk_keep hk 2 [] root rfl (tableAt_nil ..) hx, hr⟩
  · cases h

end Keep

theorem toNat_levelOffset {l : Nat} (hl : l ≤ 2) (x : U64) : (levelOffset l x).toNat = x.toNat % 2 ^ (12 + 9 * l) := by
  refine Bits.toNat_and_low x ?_
  rw [BitVec.toNat_ofNat]
  rcases (by omega : l = 0 ∨ l = 1 ∨ l = 2) with rfl | rfl | rfl <;> rfl

/-- What a walk finds: a leaf of some level, aligned to it. -/
theorem sv39Walk_leaf {pa e : U64} (level : Nat) : ∀ f : Addr, sv39Walk m va level f = some (pa, e) →
    ∃ l ≤ level, levelOffset l (physAddrFromPte e) = 0 ∧ pa = physAddrFromPte e + levelOffset l va := by
  induction level with
  | zero =>
    intro f h
    rw [sv39Walk_zero _ rfl] at h
    split at h
    · cases h
    split at h
    · split at h
      · cases h
      · rename_i h0
        cases h
        exact ⟨0, Nat.le_refl 0, not_not.mp h0, rfl⟩
    · cases h
  | succ level ih =>
    intro f h
    rw [sv39Walk_succ level _ rfl] at h
    split at h
    · cases h
    split at h
    · split at h
      · cases h
      · rename_i h0
        cases h
        exact ⟨level + 1, Nat.le_refl _, not_not.mp h0, rfl⟩
    · split at h
      · cases h
      · obtain ⟨l, hl, hleaf⟩ := ih _ h
        exact ⟨l, by omega, hleaf⟩

/-- A physical address Sv39 translates to is below 2⁵⁶, and has the offset of the address in its page. -/
theorem sv39Translate_bits {pa fl : U64} (h : sv39Translate m root va = some (pa, fl)) :
    pa.toNat < 2 ^ 56 ∧ pa.toNat % 4096 = va.toNat % 4096 := by
  rw [sv39Translate] at h
  split at h
  swap
  · cases h
  rw [Option.map_eq_some_iff] at h
  obtain ⟨⟨pa', e⟩, hx, hr⟩ := h
  cases hr
  obtain ⟨l, hl, h0, rfl⟩ := sv39Walk_leaf 2 root hx
  obtain ⟨hlt, hal⟩ := physAddrFromPte_bits e
  unfold Aligned at hal
  have h0 := congrArg BitVec.toNat h0
  rw [toNat_levelOffset hl] at h0
  change _ = 0 at h0
  rw [BitVec.toNat_add, toNat_levelOffset hl]
  rcases (by omega : l = 0 ∨ l = 1 ∨ l = 2) with rfl | rfl | rfl <;> omega

end RvOs
