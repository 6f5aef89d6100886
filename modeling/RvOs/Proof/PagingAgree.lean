import RvOs.Proof.ActiveRoot
import RvOs.Proof.FramesInRam

/-!
# Early and late paging agree

Any sequence of calls through the active root gives the replies and the state
that the early calls give on physical memory (`pagingCalls_agree`, by induction
on the calls). The tables `paging_init` makes are such a root
(`pagingInit_directMapped`). The two differ at null roots only: each function
refuses its own, so at root 0 the late one maps and the early one does not.
-/

namespace RvOs

variable {sum : Bool} {ram : U64 → Prop} {root : Addr} {s : KState}

/-- One call. -/
theorem DirectMapped.call_agree (h : DirectMapped sum ram root s) (hr : root ≠ 0) (hv : physToVirt root ≠ 0)
    (c : PagingCall) : ∃ r s',
      c.run (pagingMap (.active sum root) (physToVirt root)) (pagingQuery (.active sum root) (physToVirt root)) s =
          some (r, s') ∧
        c.run (pagingMapEarly root) (pagingQueryEarly root) s = some (r, s') ∧ DirectMapped sum ram root s' := by
  cases c with
  | map va pa flags =>
    obtain ⟨ok, s', hl, he, h'⟩ := h.pagingMap_agree hr hv va pa flags
    refine ⟨.mapped ok, s', ?_, ?_, h'⟩
    · simp only [PagingCall.run, hl, Option.bind_eq_bind, Option.bind_some, Option.pure_def]
    · simp only [PagingCall.run, he, Option.bind_eq_bind, Option.bind_some, Option.pure_def]
  | query va =>
    obtain ⟨t, hl, he⟩ := h.pagingQuery_agree hr hv va
    refine ⟨.translation t, s, ?_, ?_, h⟩
    · simp only [PagingCall.run, hl, Option.bind_eq_bind, Option.bind_some, Option.pure_def]
    · simp only [PagingCall.run, he, Option.bind_eq_bind, Option.bind_some, Option.pure_def]

/-- Any sequence of calls, none of which faults. -/
theorem pagingCalls_agree (h : DirectMapped sum ram root s) (hr : root ≠ 0) (hv : physToVirt root ≠ 0)
    (calls : List PagingCall) : ∃ rs s',
      runLate sum root calls s = some (rs, s') ∧ runEarly root calls s = some (rs, s') ∧
        DirectMapped sum ram root s' := by
  induction calls generalizing s with
  | nil => exact ⟨[], s, rfl, rfl, h⟩
  | cons c cs ih =>
    obtain ⟨r, s₁, hl, he, h₁⟩ := h.call_agree hr hv c
    obtain ⟨rs, s', hls, hes, h'⟩ := ih h₁
    refine ⟨r :: rs, s', ?_, ?_, h'⟩
    · rw [runLate] at hls ⊢
      simp only [runCalls, hl, hls, Option.bind_eq_bind, Option.bind_some, Option.pure_def]
    · rw [runEarly] at hes ⊢
      simp only [runCalls, he, hes, Option.bind_eq_bind, Option.bind_some, Option.pure_def]

/-! ## The kernel's tables -/

section PagingInit

variable {platform : PlatformInfo} {sym : KernelSymbols} {b b' : BootState} {g : Addr}

theorem frameOf_allocMany (a : PhysicalPageAllocator) (k n : Nat) : frameOf (allocMany k a) n = frameOf a (k + n) := by
  rw [frameOf, frameOf, allocMany_add]

theorem frameOf_inRam {f : Addr} (ha : Aligned f) (hb : platform.ramBase.toNat ≤ f.toNat)
    (he : f.toNat + 4096 ≤ platform.ramEnd) : FrameOf platform.InRam f := by
  refine ⟨ha, fun x hx => ?_⟩
  unfold Aligned at ha
  unfold InFrame at hx
  exact ⟨by omega, by omega⟩

/-- The root that `paging_init` makes active has RAM in its direct map. -/
theorem pagingInit_directMapped (hw : PlatformWithin (2 ^ 64 - 4096) platform) (hram : platform.ramEnd ≤ 2 ^ 38)
    (hp : physicalPageAllocatorInit platform = (true, b.allocator)) (h : pagingInit sym platform b = some (true, b'))
    (hin : platform.ramBase.toNat ≤ b.allocator.current.toNat) :
    DirectMapped sum platform.InRam (satpRoot b'.satp) b'.toKState ∧
      satpRoot b'.satp ≠ 0 ∧ physToVirt (satpRoot b'.satp) ≠ 0 := by
  obtain ⟨hb, -, g, hg⟩ := boot_tables hw hram hp h
  obtain ⟨k, hk⟩ := pagingInit_run h
  have hreach := frames_reached hw hram hp h hin
  have hroot : satpRoot b'.satp = g := by rw [hg.satp, satpRoot_makeSatpSv39 hg.frame]
  have hend := hg.inv.alloc.le
  have he := hb.end_
  rw [hg.end_] at hend
  rw [hroot]
  have hgt := (hg.inv.tables.frame [] g (by simp) (tableAt_nil ..)).2
  refine ⟨⟨fun p hp' => ⟨leafFlags (PTE_R ||| PTE_W), ?_, fun access => ?_⟩, hg.inv.tables.tree, fun p f hp hf => ?_,
    fun n hn => ?_⟩, hg.frame.ne_zero, hg.root_ne (by omega)⟩
  · obtain ⟨hb, hlt⟩ := hp'
    rw [← hroot]
    refine hg.direct p (Nat.le_trans hram (by decide)) ⟨hb, hlt⟩ (.inr ?_)
    rw [toNat_physToVirt (by omega)]
    omega
  · cases sum <;> cases access <;> decide
  · obtain ⟨hfr, hlt⟩ := hg.inv.tables.frame p f hp hf
    exact frameOf_inRam hfr.aligned (Nat.le_trans hin (hg.tables p f hp hf)) (by omega)
  · have e : frameOf b'.allocator n = frameOf b.allocator (k + n) := by rw [hk, frameOf_allocMany]
    obtain ⟨hbase, hle, -⟩ := hreach (k + n) (by rw [← e]; exact hn)
    rw [← e] at hbase hle
    refine ⟨frameOf_inRam (frameOf_aligned ..) hbase hle, fun p hp hf => ?_⟩
    -- table frames are below what the allocator has left
    have hlt := (hg.inv.tables.frame p _ hp hf).2
    have hle := Nat.le_of_lt hb.lt
    obtain ⟨hkn, hv⟩ := (frameOf_cases hb.aligned hle (by omega) (k + n)).resolve_right fun h0 => hn (e.trans h0.2)
    have hcur : b'.allocator.current.toNat = b.allocator.current.toNat + 4096 * k := by
      rw [hk, allocMany_eq hb.aligned hle (by omega), toNat_skip hle (by omega)]
    rw [e] at hlt
    omega

end PagingInit

/-- A page mapped and looked up with the sample platform's tables active. -/
theorem pagingCalls_agree_sample : ∃ root s rs s', root ≠ 0 ∧ physToVirt root ≠ 0 ∧
    runLate false root [.map 0x40000000 0x80010000 PTE_R, .query 0x40000008] s = some (rs, s') ∧
      runEarly root [.map 0x40000000 0x80010000 PTE_R, .query 0x40000008] s = some (rs, s') := by
  obtain ⟨-, b', -, -, h, -⟩ := sample_pagingInit fun _ => 0
  obtain ⟨hd, hr, hv⟩ :=
    pagingInit_directMapped (sample_within (by decide)) (by decide) (sample_allocator _) h (by decide)
  obtain ⟨rs, s', hl, he, -⟩ := pagingCalls_agree hd hr hv [.map 0x40000000 0x80010000 PTE_R, .query 0x40000008]
  exact ⟨_, _, rs, s', hr, hv, hl, he⟩

/-! ## A null root -/

/-- A root table at address 0 with one entry: the first GiB in the direct map. -/
def nullRoot : KState where
  mem := Mem.write64 (fun _ => 0) 0x800 (pteFromPhysAddr 0 (leafFlags (PTE_R ||| PTE_W)))
  allocator := ⟨0x1000, 0x2000⟩

theorem entry_zero (f : Addr) (i : Idx) : entry (fun _ => 0) f i = 0 := by
  simp [entry, Mem.read64]

theorem nullRoot_entry {f : Addr} (hf : Aligned f) (i : Idx) : entry nullRoot.mem f i =
    if f = 0 ∧ i = 256 then pteFromPhysAddr 0 (leafFlags (PTE_R ||| PTE_W)) else 0 := by
  have e : (0x800 : Addr) = entryPtr 0 (BitVec.setWidth 64 (256 : Idx)) := by decide
  rw [nullRoot, e, entry_write (by decide) hf, entry_zero]

theorem nullRoot_child (i : Idx) : child nullRoot.mem 0 i = none := by
  rw [child, nullRoot_entry (by decide)]
  split <;> decide

theorem nullRoot_table {p : List Idx} {f : Addr} (h : tableAt nullRoot.mem 0 p = some f) : f = 0 :=
  (PathTree.nodeAt_leaf nullRoot_child h).2

/-- The gigapage of the direct map. -/
theorem nullRoot_translate {p : U64} (hp : p.toNat < 2 ^ 30) :
    sv39Translate nullRoot.mem 0 (physToVirt p) = some (p, leafFlags (PTE_R ||| PTE_W)) := by
  have hv := toNat_physToVirt (p := p) (by omega)
  have hi : (physToVirt p).extractLsb' 30 9 = 256 := by
    apply BitVec.eq_of_toNat_eq
    rw [BitVec.extractLsb'_toNat, hv, Nat.shiftRight_eq_div_pow, show (256 : Idx).toNat = 256 from rfl]
    omega
  have he : entry nullRoot.mem 0 ((physToVirt p).extractLsb' (12 + 9 * (1 + 1)) 9) =
      pteFromPhysAddr 0 (leafFlags (PTE_R ||| PTE_W)) := by
    rw [show 12 + 9 * (1 + 1) = 30 from rfl, hi, nullRoot_entry (by decide), if_pos ⟨rfl, rfl⟩]
  have ho : physAddrFromPte (pteFromPhysAddr 0 (leafFlags (PTE_R ||| PTE_W))) + levelOffset 2 (physToVirt p) = p := by
    apply BitVec.eq_of_toNat_eq
    rw [show physAddrFromPte (pteFromPhysAddr 0 (leafFlags (PTE_R ||| PTE_W))) = 0 by decide, BitVec.toNat_add,
      toNat_levelOffset (Nat.le_refl 2), hv, show (0 : U64).toNat = 0 from rfl]
    omega
  rw [sv39Translate, if_pos (by unfold Canonical; omega), sv39Walk_succ 1 _ he, if_neg (by decide), if_pos (by decide),
    if_neg (by decide), ho]
  rfl

theorem nullRoot_directMapped : DirectMapped false (fun x => x.toNat < 2 ^ 30) 0 nullRoot := by
  have hframe : ∀ {f : Addr}, Aligned f → f.toNat < 2 ^ 20 → FrameOf (fun x => x.toNat < 2 ^ 30) f := fun ha hf =>
    ⟨ha, fun x hx => by unfold InFrame at hx; unfold Aligned at ha; omega⟩
  refine ⟨fun p hp => ⟨_, nullRoot_translate hp, fun access => by cases access <;> decide⟩,
    .leaf nullRoot_child, fun p f _ hf => ?_, fun n hn => ?_⟩
  · rw [nullRoot_table hf]
    exact hframe (by decide) (by decide)
  · have hc : (frameOf nullRoot.allocator n).toNat = 0x1000 := by
      obtain ⟨hlt, hv⟩ := (frameOf_cases (a := nullRoot.allocator) (by decide) (by decide) (by decide) n).resolve_right
        fun h0 => hn h0.2
      have hfr : nullRoot.allocator.frames = 1 := by decide
      rw [show n = 0 by omega] at hv ⊢
      exact hv
    have hal := frameOf_aligned nullRoot.allocator n
    exact ⟨hframe hal (by omega), fun p _ hf => hn (nullRoot_table hf)⟩

/-- The late call at root 0 takes the free frame. -/
theorem nullRoot_late {ok : Bool} {s' : KState}
    (h : pagingMap (.active false 0) (physToVirt 0) 0 0 PTE_R nullRoot = some (ok, s')) :
    s'.allocator = ⟨0x2000, 0x2000⟩ := by
  have ha : physicalAllocPage nullRoot.allocator = (0x1000, ⟨0x2000, 0x2000⟩) := by decide
  have hv : pteIsValid (entry nullRoot.mem 0 (vpnOf 0).i2) = false := by
    rw [nullRoot_entry (by decide)]
    decide
  have hn := nullRoot_directMapped.nextTable_linked (tableAt_nil ..) (by simp) hv ha (by decide)
  rw [pagingMap, pagingMapVia, if_neg (by decide), if_neg (by decide), if_neg (by decide), sv39Vpn2_eq, hn,
    Option.bind_eq_bind, Option.bind_some] at h
  obtain ⟨k, hk⟩ := mapFromLevel1_run h
  rw [hk]
  exact allocMany_stuck (by decide) k

/-- The early one does nothing. -/
theorem nullRoot_not_agree : DirectMapped false (fun x => x.toNat < 2 ^ 30) 0 nullRoot ∧
    runEarly 0 [.map 0 0 PTE_R] nullRoot = some ([.mapped false], nullRoot) ∧
    runLate false 0 [.map 0 0 PTE_R] nullRoot ≠ some ([.mapped false], nullRoot) := by
  refine ⟨nullRoot_directMapped, rfl, fun h => ?_⟩
  simp only [runLate, runCalls, PagingCall.run, Option.bind_eq_bind, Option.bind_eq_some_iff, Option.pure_def,
    Option.some.injEq, Prod.mk.injEq, Prod.exists] at h
  obtain ⟨_, s₁, ⟨ok, s₂, hm, -, rfl⟩, rs, s₃, ⟨-, rfl⟩, -, rfl⟩ := h
  exact absurd (nullRoot_late hm) (by decide)

end RvOs
