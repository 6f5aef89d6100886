import RvOs.Proof.RangeCorrect
import RvOs.Proof.Sv39

/-!
# What a mapping can express

An entry holds the frames below 2⁵⁶, and the tables have places for the
canonical addresses; `paging_map` takes any others for some of these. So it is
exact for these arguments, and for those that it refuses (`pagingMap_exact_iff`).
-/

namespace RvOs

variable {g : Addr} {s s' : KState} {va pa flags : U64} {query : Query} {ok : Bool}

/-- A leaf entry decodes to its frame exactly when that is below 2⁵⁶. -/
theorem pte_exact_iff (hp : Aligned pa) (hf : flags.toNat < 2 ^ 10) :
    physAddrFromPte (pteFromPhysAddr pa (leafFlags flags)) = pa ∧ pteFromPhysAddr pa (leafFlags flags) >>> 54 = 0 ↔
      pa.toNat < 2 ^ 56 := by
  have hlt := leafFlags_lt hf
  refine ⟨fun h => ?_, fun h => ⟨physAddrFromPte_pte hlt hp h, pte_high h hlt⟩⟩
  rw [← h.1]
  exact (physAddrFromPte_bits _).1

theorem mappedExactly_unaligned (query : Query) (s : KState) (ha : ¬ (Aligned va ∧ Aligned pa)) :
    MappedExactly query g va pa s false s ↔ Canonical va ∧ pa.toNat < 2 ^ 56 ∨ Refuses g s va pa :=
  iff_of_true ⟨nofun, fun _ _ _ => rfl⟩ (.inr (.inl ha))

theorem MapResult.exact_iff (hq : ∀ a m, query a m = some ((space m g).translate a)) (hp : Aligned va ∧ Aligned pa)
    (hf : flags.toNat < 2 ^ 10)
    (hm : MapResult g s (vpnOf va) (missing s.mem g (vpnOf va)) (pteFromPhysAddr pa (leafFlags flags)) ok s') :
    MappedExactly query g va pa s ok s' ↔ Canonical va ∧ pa.toNat < 2 ^ 56 ∨ Refuses g s va pa := by
  cases ok with
  | false =>
    obtain ⟨hs, hwhy⟩ := hm.failed rfl
    refine iff_of_true ⟨nofun, fun _ a _ => ?_⟩ (.inr (.inr hwhy))
    rw [hq, hq, hs]
  | true =>
    obtain ⟨hfree, hsup, hs⟩ := hm.mapped rfl
    have hno : ¬ Refuses g s va pa := by
      rintro (h | h | h)
      · exact h hp
      · exact h hfree
      · exact h hsup
    rw [or_iff_left hno, ← pte_exact_iff hp.2 hf]
    constructor
    · intro h
      obtain ⟨hc, pte, hpte, hd⟩ := h.accepted rfl
      rw [hs, Function.update_self, Option.some.injEq] at hpte
      exact ⟨hc, hpte ▸ hd⟩
    · intro h
      exact ⟨fun _ => ⟨h.1, _, by rw [hs, Function.update_self], h.2⟩, nofun⟩

/-- Both functions that map a page, over the tables below `g`, are exact for
canonical addresses and frames below 2⁵⁶, and where they return false. -/
theorem pagingMap_exact_iff (g : Addr) (s : KState) (va pa flags : U64) (h : KInv g s)
    (hf : flags.toNat < 2 ^ 10) (hl : pteIsLeaf flags = true) :
    (physToVirt g ≠ 0 → ∃ ok s', pagingMap .direct (physToVirt g) va pa flags s = some (ok, s') ∧
      (MappedExactly (pagingQuery .direct (physToVirt g)) g va pa s ok s' ↔
        Canonical va ∧ pa.toNat < 2 ^ 56 ∨ Refuses g s va pa)) ∧
    ∃ ok s', pagingMapEarly g va pa flags s = some (ok, s') ∧
      (MappedExactly (pagingQueryEarly g) g va pa s ok s' ↔ Canonical va ∧ pa.toNat < 2 ^ 56 ∨ Refuses g s va pa) := by
  have hroot := (h.tables.frame [] g (by simp) (tableAt_nil ..)).1.ne_zero
  by_cases ha : Aligned va ∧ Aligned pa
  · have hv : pteIsValid (pteFromPhysAddr pa (leafFlags flags)) = true := pteIsValid_leaf hf
    have hle : pteIsLeaf (pteFromPhysAddr pa (leafFlags flags)) = true := pteIsLeaf_leaf hf hl
    refine ⟨fun hr => ?_, ?_⟩
    · obtain ⟨ok, s', he, hm⟩ := pagingMapVia_ok hv hle h hr ha.1 ha.2
      exact ⟨ok, s', he, hm.exact_iff (pagingQuery_physToVirt hr) ha hf⟩
    · obtain ⟨ok, s', he, hm⟩ := pagingMapEarly_ok hv hle h hroot ha.1 ha.2
      exact ⟨ok, s', he, hm.exact_iff (pagingQueryEarly_eq hroot) ha hf⟩
  · exact ⟨fun _ => ⟨false, s, pagingMapVia_unaligned ha, mappedExactly_unaligned _ s ha⟩,
      false, s, pagingMapVia_unaligned ha, mappedExactly_unaligned _ s ha⟩

/-- A canonical page and a frame of RAM. -/
theorem pagingMap_exact_root : ∃ ok s',
    pagingMap .direct (physToVirt 0x80005000) 0x400000 0x80010000 PTE_R freshRoot = some (ok, s') ∧
      MappedExactly (pagingQuery .direct (physToVirt 0x80005000)) 0x80005000 0x400000 0x80010000 freshRoot ok s' := by
  obtain ⟨ok, s', he, h⟩ := (pagingMap_exact_iff 0x80005000 freshRoot 0x400000 0x80010000 PTE_R freshRoot_inv
    (by decide) (by decide)).1 (by decide)
  exact ⟨ok, s', he, h.mpr (.inl (by decide))⟩

/-- The first address past the lower half is mapped. -/
theorem pagingMap_not_canonical : ∃ ok s',
    pagingMap .direct (physToVirt 0x80005000) 0x4000000000 0x80010000 PTE_R freshRoot = some (ok, s') ∧
      ¬ MappedExactly (pagingQuery .direct (physToVirt 0x80005000)) 0x80005000 0x4000000000 0x80010000
        freshRoot ok s' := by
  have hr : physToVirt 0x80005000 ≠ 0 := by decide
  have hf : PTE_R.toNat < 2 ^ 10 := by decide
  have hva : Aligned 0x4000000000 := by decide
  have hpa : Aligned 0x80010000 := by decide
  obtain ⟨ok, s', he, hm⟩ := pagingMapVia_ok (o := KERNEL_DIRECT_MAP_BASE) (pteIsValid_leaf hf)
    (pteIsLeaf_leaf hf (by decide)) freshRoot_inv hr hva hpa
  refine ⟨ok, s', he, fun h => ?_⟩
  rcases (hm.exact_iff (pagingQuery_physToVirt hr) ⟨by decide, by decide⟩ hf).mp h with h | h | h | h
  · exact absurd h (by decide)
  · exact h ⟨by decide, by decide⟩
  · rw [freshRoot_space] at h
    exact h rfl
  · rw [freshRoot_missing] at h
    exact h (by decide)

end RvOs
