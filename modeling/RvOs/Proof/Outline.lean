import RvOs.Proof.PagingInit

/-!
# Outlines of runs

An `Outline` keeps which tables exist, which pages are mapped and what is left
of the allocator: enough to tell, by evaluation, that a run of the mapping
code succeeds. The mapping code follows its outline (`Outline.map_ok`,
`Outline.pagingInit_ok`), so `paging_init` succeeds on `samplePlatform`.
-/

namespace RvOs

structure Outline where
  tables : List (List Idx)
  pages : List Vpn
  allocator : PhysicalPageAllocator

namespace Outline

/-- A frame handed out. -/
def alloc (o : Outline) : Option Outline :=
  if (physicalAllocPage o.allocator).1 = 0 then none
  else some { o with allocator := (physicalAllocPage o.allocator).2 }

def missing (o : Outline) (v : Vpn) : Nat :=
  if [v.i2] ∉ o.tables then 2 else if [v.i2, v.i1] ∉ o.tables then 1 else 0

/-- Page `v` mapped. -/
def map (o : Outline) (v : Vpn) : Option Outline :=
  if v ∈ o.pages ∨ ¬ supplies (o.missing v) o.allocator then none
  else some ⟨[v.i2] :: [v.i2, v.i1] :: o.tables, v :: o.pages, allocMany (o.missing v) o.allocator⟩

/-- The first `n` pages at `va` mapped. -/
def mapPages (o : Outline) (va : U64) : Nat → Option Outline
  | 0 => some o
  | n + 1 => (o.mapPages va n).bind fun o => o.map (vpnOf (va + pageOff n))

/-- Ranges of aligned pages mapped. -/
def mapRanges : List MapRange → Outline → Option Outline
  | [], o => some o
  | r :: rs, o =>
    if Aligned r.virtualStart ∧ Aligned r.physicalStart then
      (o.mapPages r.virtualStart r.pages).bind (mapRanges rs)
    else none

/-- `paging_init`. -/
def pagingInit (sym : KernelSymbols) (platform : PlatformInfo) (a : PhysicalPageAllocator) : Option Outline :=
  (alloc ⟨[], [], a⟩).bind (mapRanges (kernelRanges sym platform))

/-- The outline of a state. -/
structure Rep (o : Outline) (root : Addr) (s : KState) : Prop where
  inv : KInv root s
  tables : ∀ p, p ≠ [] → p.length ≤ 2 → ((tableAt s.mem root p).isSome ↔ p ∈ o.tables)
  pages : ∀ v, (space s.mem root v).isSome ↔ v ∈ o.pages
  allocator : s.allocator = o.allocator

variable {o o' : Outline} {root : Addr} {s s' : KState} {va pa flags size : U64} {d : U64}

theorem Rep.missing (h : o.Rep root s) (v : Vpn) : RvOs.missing s.mem root v = o.missing v := by
  have h₂ := h.tables [v.i2] (by simp) (by simp)
  have h₁ := h.tables [v.i2, v.i1] (by simp) (by simp)
  simp only [RvOs.missing, Outline.missing, ← h₂, ← h₁]
  cases tableAt s.mem root [v.i2] <;> cases tableAt s.mem root [v.i2, v.i1] <;> rfl

variable (pa) in
/-- A mapping follows its outline. -/
theorem map_ok (hf : flags.toNat < 2 ^ 10) (hl : pteIsLeaf flags = true) (hr : root + d ≠ 0)
    (hva : Aligned va) (hpa : Aligned pa) (h : o.Rep root s) (ho : o.map (vpnOf va) = some o') :
    ∃ s', pagingMapVia (.offset d) (· + d) (root + d) va pa flags s = some (true, s') ∧ o'.Rep root s' := by
  rw [map] at ho
  split at ho
  · cases ho
  rename_i hc
  rw [not_or, not_not] at hc
  obtain rfl := Option.some.inj ho
  obtain ⟨b, s', he, hm⟩ := pagingMapVia_ok (pteIsValid_leaf hf) (pteIsLeaf_leaf hf hl) h.inv hr hva hpa
  rw [h.missing] at hm
  have hnone : space s.mem root (vpnOf va) = none := by
    rcases hs : space s.mem root (vpnOf va) with _ | e
    · rfl
    · exact absurd ((h.pages _).mp (by rw [hs]; rfl)) hc.1
  cases b with
  | false =>
    rcases (hm.failed rfl).2 with hn | hn
    · exact absurd hnone hn
    · exact absurd (h.allocator ▸ hc.2) hn
  | true =>
    refine ⟨s', he, hm.inv, fun p hp hl => ?_, fun v => ?_, by rw [hm.allocs rfl, h.allocator]⟩
    · rw [hm.paths rfl p hl, h.tables p hp hl, List.mem_cons, List.mem_cons]
      tauto
    · rw [(hm.mapped rfl).2.2, List.mem_cons]
      by_cases hv : v = vpnOf va
      · simp [hv]
      · rw [Function.update_of_ne hv, h.pages]
        simp [hv]

section Pages

variable {pages : Nat → Option Outline} {next : Nat → Outline → Option Outline}
  (hnext : ∀ j, pages (j + 1) = (pages j).bind (next j))

include hnext

theorem pages_le {n : Nat} (h : (pages n).isSome) : ∀ {j}, j ≤ n → (pages j).isSome := by
  induction n with
  | zero =>
    intro j hj
    rwa [Nat.le_zero.mp hj]
  | succ n ih =>
    intro j hj
    rcases Nat.le_succ_iff.mp hj with hj | rfl
    · refine ih ?_ hj
      rw [hnext] at h
      cases hn : pages n with
      | none => rw [hn] at h; cases h
      | some => rfl
    · exact h

/-- A loop over pages follows the outlines of the first pages, if each page does. -/
theorem pageLoop_follows {page : U64 → KState → Option (Bool × KState)} {n : Nat} (hn : size.toNat = 4096 * n)
    (step : ∀ j < n, ∀ o₁ o₂ s₁, o₁.Rep root s₁ → next j o₁ = some o₂ →
      ∃ s₂, page (pageOff j) s₁ = some (true, s₂) ∧ o₂.Rep root s₂)
    (h0 : pages 0 = some o) (h : o.Rep root s) (ho : pages n = some o') :
    ∃ s', pageLoop page size pageLoopFuel 0 s = some (true, s') ∧ o'.Rep root s' := by
  have hstep : ∀ j < n, ∀ s₁, (∃ o₁, pages j = some o₁ ∧ o₁.Rep root s₁) → ∃ b s₂, page (pageOff j) s₁ = some (b, s₂) ∧
      (b = true → ∃ o₂, pages (j + 1) = some o₂ ∧ o₂.Rep root s₂) ∧ (b = false → False) := by
    intro j hj s₁ ⟨o₁, ho₁, h₁⟩
    obtain ⟨o₂, ho₂⟩ := Option.isSome_iff_exists.mp (pages_le hnext (by rw [ho]; rfl) (Nat.succ_le_of_lt hj))
    have hmap := ho₂
    rw [hnext, ho₁, Option.bind_some] at hmap
    obtain ⟨s₂, he₂, h₂⟩ := step j hj o₁ o₂ s₁ h₁ hmap
    exact ⟨true, s₂, he₂, fun _ => ⟨o₂, ho₂, h₂⟩, by simp⟩
  obtain ⟨b, s', he, ht, hfail⟩ := pageLoop_zero page (fun j s => ∃ o₁, pages j = some o₁ ∧ o₁.Rep root s)
    (fun _ _ => False) hn hstep ⟨o, h0, h⟩
  cases b with
  | true =>
    obtain ⟨o₁, ho₁, h₁⟩ := ht rfl
    rw [ho] at ho₁
    obtain rfl := Option.some.inj ho₁
    exact ⟨s', he, h₁⟩
  | false =>
    obtain ⟨_, _, hF⟩ := hfail rfl
    exact hF.elim

end Pages

/-- A range follows its outline. -/
theorem mapPages_ok (hf : flags.toNat < 2 ^ 10) (hl : pteIsLeaf flags = true) (hr : root ≠ 0)
    (hva : Aligned va) (hpa : Aligned pa) {n : Nat} (hn : (alignUp size PAGE_SIZE).toNat = 4096 * n)
    (h : o.Rep root s) (ho : o.mapPages va n = some o') :
    ∃ s', pagingMapRangeEarly root va pa size flags s = some (true, s') ∧ o'.Rep root s' := by
  rw [pagingMapRangeEarly, pagingMapRangeVia]
  by_cases hsz : size = 0
  · have hn0 : n = 0 := pages_zero (hsz ▸ hn)
    rw [hn0, mapPages] at ho
    obtain rfl := Option.some.inj ho
    exact ⟨s, if_pos hsz, h⟩
  rw [if_neg hsz]
  have z : ∀ x : U64, x + 0 = x := BitVec.add_zero
  have e : physToPtrEarly = (· + 0) := funext fun x => (z x).symm
  refine pageLoop_follows (fun j => show o.mapPages va (j + 1) = _ from rfl) hn (fun j _ o₁ o₂ s₁ h₁ hmap => ?_)
    rfl h ho
  obtain ⟨s₂, he₂, h₂⟩ := map_ok (pa + pageOff j) (d := 0) hf hl (by rwa [z])
    ((aligned_add_pageOff va j).mpr hva) ((aligned_add_pageOff pa j).mpr hpa) h₁ hmap
  rw [z, ← e] at he₂
  exact ⟨s₂, he₂, h₂⟩

/-- So do ranges, -/
theorem mapRanges_ok (hr : root ≠ 0) : ∀ (rs : List MapRange) (o o' : Outline) (s : KState),
    (∀ r ∈ rs, r.FlagsOk) → o.Rep root s → mapRanges rs o = some o' →
      ∃ s', mapRangesEarly root rs s = some (true, s') ∧ o'.Rep root s'
  | [], o, o', s, _, h, ho => by
    obtain rfl := Option.some.inj ho
    exact ⟨s, rfl, h⟩
  | r :: rs, o, o', s, hf, h, ho => by
    obtain ⟨hr', hf'⟩ := List.forall_mem_cons.mp hf
    rw [mapRanges] at ho
    split at ho
    · rename_i ha
      obtain ⟨o₁, ho₁, ho⟩ := Option.bind_eq_some_iff.mp ho
      obtain ⟨s₁, he, h₁⟩ := mapPages_ok hr'.1 hr'.2 hr ha.1 ha.2 r.toNat_alignUp h ho₁
      obtain ⟨s', he', h'⟩ := mapRanges_ok hr rs o₁ o' s₁ hf' h₁ ho
      rw [mapRangesEarly, he]
      exact ⟨s', he', h'⟩
    · cases ho

/-- A root table just created. -/
theorem Rep.fresh {g : Addr} {m : Mem} {a : PhysicalPageAllocator} (hg : IsFrame g)
    (hi : KInv g ⟨zeroTable m g PAGE_TABLE_ENTRIES, a⟩) : Rep ⟨[], [], a⟩ g ⟨zeroTable m g PAGE_TABLE_ENTRIES, a⟩ := by
  have hs := (Tables.zero (m := m) (c := g.toNat + 4096) hg (Nat.le_refl _)).2
  refine ⟨hi, fun p hp hl => ?_, fun v => by rw [hs]; simp, rfl⟩
  refine iff_of_false (fun hsome => hp ?_) List.not_mem_nil
  obtain ⟨x, hx⟩ := Option.isSome_iff_exists.mp hsome
  exact (tableAt_zeroTable hg hx).1

/-- and `paging_init`. -/
theorem pagingInit_ok {sym : KernelSymbols} {platform : PlatformInfo} {b : BootState} (ha : AllocOk b.allocator)
    (ho : pagingInit sym platform b.allocator = some o') :
    ∃ b' g, RvOs.pagingInit sym platform b = some (true, b') ∧ b'.root = physToVirt g ∧ o'.Rep g b'.toKState := by
  obtain ⟨o, ho₀, ho⟩ := Option.bind_eq_some_iff.mp ho
  rcases physicalAllocPage_cases ha with ⟨e, -⟩ | ⟨g, a', e, hg⟩
  · rw [alloc, e, if_pos rfl] at ho₀; cases ho₀
  have hne := hg.frame.ne_zero
  rw [alloc, e, if_neg hne] at ho₀
  obtain rfl := Option.some.inj ho₀
  have hc := pagingCreateRootTable_eq (s := b.toKState) e hne
  have hi := (pagingCreateRootTable_ok ha.le ha.lt hc hne).2.2.1
  have hrep : Rep ⟨[], [], a'⟩ g ⟨zeroTable b.mem g PAGE_TABLE_ENTRIES, a'⟩ := .fresh hg.frame hi
  obtain ⟨s', he, h'⟩ := mapRanges_ok hne _ _ _ _ (kernelRanges_flagsOk sym platform) hrep ho
  refine ⟨{ toKState := s', satp := makeSatpSv39 g, root := physToVirt g, gKernelRoot := physToVirt g }, g, ?_,
    rfl, h'⟩
  rw [RvOs.pagingInit, hc]
  simp only [Option.bind_eq_bind, Option.bind_some, if_neg hne, he]
  rfl

theorem freshRoot_rep : Rep ⟨[], [], ⟨0x80006000, 0x80020000⟩⟩ 0x80005000 freshRoot :=
  .fresh freshRoot_frame freshRoot_inv

end Outline

/-! ## A platform -/

/-- 32 pages of RAM, with the kernel in the first four, and the device tree after it. -/
def samplePlatform : PlatformInfo where
  ramBase := 0x80000000
  ramSize := 0x20000
  uartBase := 0x10000000
  dtbAddr := 0x80004000
  dtbSize := 0x100
  dtbEnd := 0x80004100
  kernelStart := 0x80000000
  kernelEnd := 0x80004000
  bssStart := 0x80003000
  bssEnd := 0x80004000

def sampleSymbols : KernelSymbols where
  textStart := 0x80000000
  textEnd := 0x80001000
  rodataStart := 0x80001000
  rodataEnd := 0x80002000
  dataStart := 0x80002000
  dataEnd := 0x80003000
  bssStart := 0x80003000
  bssEnd := 0x80004000

/-- Memory `m` at boot. -/
def sampleBoot (m : Mem) : BootState where
  mem := m
  allocator := ⟨0x80005000, 0x80020000⟩
  satp := 0
  root := 0
  gKernelRoot := 0

theorem sample_linked : LinkedKernel sampleSymbols samplePlatform :=
  ⟨by simp [sampleSymbols], by simp [sampleSymbols], rfl, rfl⟩

theorem sample_within {limit : Nat} (h : 0x80020000 ≤ limit) : PlatformWithin limit samplePlatform := by
  refine ⟨Nat.le_trans ?_ h, Nat.le_trans ?_ h, Nat.le_trans ?_ h⟩ <;> decide

theorem sample_allocator (m : Mem) :
    physicalPageAllocatorInit samplePlatform = (true, (sampleBoot m).allocator) := by
  change physicalPageAllocatorInit samplePlatform = (true, ⟨0x80005000, 0x80020000⟩)
  decide

/-- `paging_init` succeeds on it. -/
theorem sample_pagingInit (m : Mem) : ∃ o b' g,
    Outline.pagingInit sampleSymbols samplePlatform (sampleBoot m).allocator = some o ∧
      pagingInit sampleSymbols samplePlatform (sampleBoot m) = some (true, b') ∧ b'.root = physToVirt g ∧
        o.Rep g b'.toKState := by
  have ha : AllocOk ⟨0x80005000, 0x80020000⟩ := ⟨by decide, by decide, by decide⟩
  have hs : (Outline.pagingInit sampleSymbols samplePlatform ⟨0x80005000, 0x80020000⟩).isSome = true := by
    decide +kernel
  obtain ⟨o, ho⟩ := Option.isSome_iff_exists.mp hs
  obtain ⟨b', g, h⟩ := Outline.pagingInit_ok (b := sampleBoot m) ha ho
  exact ⟨o, b', g, ho, h⟩

end RvOs
