import RvOs.Proof.Load

/-!
# Copies into a region

`copy_into_region` as a copy between virtual memory and the source
(`copyIntoRegion_copied`): it goes on up to the first address that is not
mapped, and its own writes change no translation, as they are in no page table.
-/

namespace RvOs

variable {g : Addr} {s : KState} {va size : U64} {src : Addr} {k n : Nat} {query : Query}

/-- A translation keeps the offset in the page. -/
theorem translate_offset {A : AddrSpace} {a x fl : U64} (h : A.translate a = some (x, fl)) :
    x.toNat % 4096 = a.toNat % 4096 := by
  rw [AddrSpace.translate, Option.map_eq_some_iff] at h
  obtain ⟨e, -, he⟩ := h
  obtain ⟨hlt, hal⟩ := physAddrFromPte_bits e
  have hx : x = physAddrFromPte e + (a &&& (PAGE_SIZE - 1)) := (congrArg Prod.fst he).symm
  unfold Aligned at hal
  rw [hx, BitVec.toNat_add, toNat_pageOffset]
  omega

/-- Bytes before an address that is not mapped are copied, and then the loop stops. -/
theorem copyBytes_stop {V S : View} {r : Addr} {m₀ m : Mem}
    (he : copyBytes V S r va src m₀ k = some (true, m)) (hq : pagingQuery V r (va + BitVec.ofNat 64 k) m = some none)
    (hn : k < n) : copyBytes V S r va src m₀ n = some (false, m) := by
  induction n with
  | zero => omega
  | succ n ih =>
    rcases Nat.lt_succ_iff_lt_or_eq.mp hn with hn | rfl
    · rw [copyBytes, ih hn]
      rfl
    · rw [copyBytes, he]
      simp only [Option.bind_eq_bind, Option.bind_some, Bool.not_true, Bool.false_eq_true, ite_false, hq]
      rfl

section Copy

variable (hq : ∀ a m, query a m = some ((space m g).translate a)) (h : CopyTarget query g va src size s.mem)

include hq h

/-- Different bytes go to different addresses. -/
theorem CopyTarget.inj {i j : Nat} (hi : i < size.toNat) (hj : j < size.toNat) {x fl fl' : U64}
    (hxi : query (va + BitVec.ofNat 64 i) s.mem = some (some (x, fl)))
    (hxj : query (va + BitVec.ofNat 64 j) s.mem = some (some (x, fl'))) : i = j := by
  have hsize := h.size_le
  have hadd {i : Nat} (hi : i < size.toNat) : (va + BitVec.ofNat 64 i).toNat = va.toNat + i := by
    rw [BitVec.toNat_add, BitVec.toNat_ofNat]
    omega
  have hpage : (va.toNat + i) / 4096 = (va.toNat + j) / 4096 :=
    not_not.mp fun hne => h.apart i hi j hj x fl x fl' hxi hxj hne rfl
  rw [hq, Option.some.injEq] at hxi hxj
  have ho := (translate_offset hxi).symm.trans (translate_offset hxj)
  rw [hadd hi, hadd hj] at ho
  omega

/-- The first `k` bytes, all mapped. -/
theorem CopyTarget.copyBytes (hi : KInv g s) (hr : physToVirt g ≠ 0) (hk : k ≤ size.toNat)
    (hm : MappedUpTo query va s.mem k) :
    ∃ m, RvOs.copyBytes .direct .phys (physToVirt g) va src s.mem k = some (true, m) ∧
      BytesCopied query va src k s.mem m := by
  have hex : ∀ i, ∃ t fl, i < k → query (va + BitVec.ofNat 64 i) s.mem = some (some (t, fl)) := fun i => by
    by_cases hik : i < k
    · obtain ⟨x, hx⟩ := hm i hik
      exact ⟨x.1, x.2, fun _ => hx⟩
    · exact ⟨0, 0, fun h => absurd h hik⟩
  choose t fl ht using hex
  have hdata : ∀ i < k, ∀ p f, p.length ≤ 2 → tableAt s.mem g p = some f → ¬ InFrame f (t i) := fun i hik =>
    h.not_table i (by omega) (t i) (fl i) (ht i hik)
  obtain ⟨m, he, hcopied, hrest⟩ := copyBytes_ok va src hi hr t fl
    (fun i hik => by
      have hx := ht i hik
      rwa [hq, Option.some.injEq] at hx)
    (fun i hik j hjk e => by
      have hj := ht j hjk
      rw [← e] at hj
      exact h.inj hq (by omega) (by omega) (ht i hik) hj)
    hdata (fun i hik j hjk => h.not_source j (by omega) (t j) (fl j) (ht j hjk) i (by omega)) k (Nat.le_refl k)
  have hsp : space m g = space s.mem g := space_of_bytes hi.tables fun p f a hp hf hin =>
    hrest a fun i hik e => hdata i hik p f hp hf (e ▸ hin)
  refine ⟨m, he, fun i hik x fl' hx => ?_, fun a ha => hrest a fun i hik e => ?_, fun a => ?_⟩
  · obtain rfl : t i = x := congrArg Prod.fst (Option.some.inj (Option.some.inj ((ht i hik).symm.trans hx)))
    exact hcopied i hik
  · subst e
    exact ha i hik (fl i) (ht i hik)
  · rw [hq, hq, hsp]

end Copy

/-- `copy_into_region` refines the copy of virtual memory. -/
theorem copyIntoRegion_copied (g : Addr) (s : KState) (va : U64) (src : Addr) (size : U64) (hi : KInv g s)
    (hr : physToVirt g ≠ 0) (h : CopyTarget (pagingQuery .direct (physToVirt g)) g va src size s.mem) :
    ∃ ok m', copyIntoRegion .direct .phys (physToVirt g) va src size s.mem = some (ok, m') ∧
      Copied (pagingQuery .direct (physToVirt g)) va src size s.mem ok m' := by
  have hq := pagingQuery_physToVirt hr
  rw [copyIntoRegion, if_neg fun h => hr h.1]
  rcases forall_lt_or_first (fun i => ∃ x, pagingQuery .direct (physToVirt g) (va + BitVec.ofNat 64 i) s.mem =
    some (some x)) size.toNat with hall | ⟨k, hk, hbefore, hno⟩
  · obtain ⟨m, he, hm⟩ := h.copyBytes hq hi hr (Nat.le_refl _) hall
    exact ⟨true, m, he, iff_of_true rfl hall, fun _ => hm, fun hb => absurd hb.symm Bool.false_ne_true⟩
  · obtain ⟨m, he, hm⟩ := h.copyBytes hq hi hr hk.le hbefore
    have hnone : pagingQuery .direct (physToVirt g) (va + BitVec.ofNat 64 k) s.mem = some none := by
      rw [hq] at hno ⊢
      exact congrArg some (Option.eq_none_iff_forall_ne_some.mpr fun x hx => hno ⟨x, congrArg some hx⟩)
    have hstop := copyBytes_stop he ((hm.query _).trans hnone) hk
    exact ⟨false, m, hstop, iff_of_false Bool.false_ne_true fun hall => hno (hall k hk),
      fun hb => absurd hb Bool.false_ne_true, fun _ => ⟨k, hk, hbefore, hnone, hm⟩⟩

/-- A page mapped under a root just created. -/
theorem freshRoot_map : ∃ s', KInv 0x80005000 s' ∧ s'.allocator = ⟨0x80008000, 0x80020000⟩ ∧
    ∀ i < 4096, pagingQuery .direct (physToVirt 0x80005000) (0x400000 + BitVec.ofNat 64 i) s'.mem =
      some (some (0x80010000 + BitVec.ofNat 64 i, leafFlags (PTE_R ||| PTE_W))) := by
  have ha : MapArgs 0x400000 0x80010000 (PTE_R ||| PTE_W) :=
    ⟨by decide, by decide, by decide, by decide, by decide, by decide⟩
  have hr : physToVirt 0x80005000 ≠ 0 := by decide
  have hv : virtToPhys (physToVirt 0x80005000) = 0x80005000 := by decide
  have hi : KInv (virtToPhys (physToVirt 0x80005000)) freshRoot := hv ▸ freshRoot_inv
  obtain ⟨b, s', -, hm⟩ := pagingMap_ok hi hr ha
  rw [hv, freshRoot_missing] at hm
  obtain rfl : b = true := by
    refine Bool.eq_true_of_not_eq_false fun hb => ?_
    rcases (hm.failed hb).2 with h | h
    · rw [freshRoot_space] at h
      exact h rfl
    · exact h (by decide)
  refine ⟨s', hm.inv, (hm.allocs rfl).trans (by decide), fun i hi => ?_⟩
  have ho : (BitVec.ofNat 64 i).toNat < 4096 := by
    rw [BitVec.toNat_ofNat]
    omega
  rw [pagingQuery_physToVirt hr, (hm.mapped rfl).2.2, (AddrSpace.translate_update ha).1 _ ho]

/-- Four bytes copied into it. -/
theorem copyIntoRegion_copied_page : ∃ s : KState, ∃ ok m',
    copyIntoRegion .direct .phys (physToVirt 0x80005000) 0x400000 0x1000 4 s.mem = some (ok, m') ∧
      Copied (pagingQuery .direct (physToVirt 0x80005000)) 0x400000 0x1000 4 s.mem ok m' := by
  obtain ⟨s, hi, hal, hq⟩ := freshRoot_map
  have hx {i : Nat} (hi : i < (4 : U64).toNat) {x fl : U64}
      (h : pagingQuery .direct (physToVirt 0x80005000) (0x400000 + BitVec.ofNat 64 i) s.mem = some (some (x, fl))) :
      x.toNat = 0x80010000 + i := by
    change i < 4 at hi
    rw [hq i (by omega)] at h
    obtain rfl := congrArg Prod.fst (Option.some.inj (Option.some.inj h))
    show (0x80010000 + BitVec.ofNat 64 i : U64).toNat = _
    rw [BitVec.toNat_add, BitVec.toNat_ofNat]
    show (0x80010000 + _) % _ = _
    omega
  have h : CopyTarget (pagingQuery .direct (physToVirt 0x80005000)) 0x80005000 0x400000 0x1000 4 s.mem := by
    refine ⟨by decide, fun i hi j hj _ _ _ _ _ _ hne => ?_, fun i hi' x fl h p f hp hf hin => ?_,
      fun i hi' x fl h j hj e => ?_⟩
    · change i < 4 at hi
      change j < 4 at hj
      change (0x400000 + i) / 4096 ≠ (0x400000 + j) / 4096 at hne
      omega
    · have hlt := (hi.tables.frame p f hp hf).2
      have hxi := hx hi' h
      rw [hal] at hlt
      change f.toNat + 4096 ≤ 0x80008000 at hlt
      unfold InFrame at hin
      omega
    · have hxi := hx hi' h
      change j < 4 at hj
      rw [← e, BitVec.toNat_add, BitVec.toNat_ofNat] at hxi
      change (0x1000 + _) % _ = _ at hxi
      omega
  exact ⟨s, copyIntoRegion_copied 0x80005000 s 0x400000 0x1000 4 hi (by decide) h⟩

end RvOs
