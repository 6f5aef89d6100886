import Mathlib.Data.List.Nodup
import RvOs.Proof.Loaded

/-!
# Loading the user program

The layout of an image that fits (`layout_ok`), the bytes `copy_into_region`
writes (`copyBytes_ok`, by induction on them), and from them what a loader
that returns true leaves (`processLoad_ok`): the pages of three regions, all
zero but for the bytes of the image.
-/

namespace RvOs

variable {root : Addr} {s s' s₁ : KState} {va src : U64} {n : Nat}

/-! ## The layout -/

/-- The whole pages of an image. -/
def imagePages (size : U64) : Nat := (size.toNat + 4095) / 4096

/-- The regions of an image of `size` bytes. -/
def textRegion (size : U64) : MemoryRegion :=
  ⟨USER_TEXT_START, BitVec.ofNat 64 (4096 * imagePages size), PTE_R ||| PTE_X ||| PTE_U⟩

def bssRegion (size : U64) : MemoryRegion :=
  ⟨USER_TEXT_START + BitVec.ofNat 64 (4096 * imagePages size), 4096, PTE_R ||| PTE_W ||| PTE_U⟩

def stackRegion : MemoryRegion := ⟨0x3FFFFFE000, 4096, PTE_R ||| PTE_W ||| PTE_U⟩

/-- The layout of an image of `size` bytes. -/
def imageLayout (size : U64) : ProcessMemoryLayout where
  text := textRegion size
  rodata := ⟨(bssRegion size).start, 0, PTE_R ||| PTE_U⟩
  data := ⟨(bssRegion size).start, 0, PTE_R ||| PTE_W ||| PTE_U⟩
  bss := bssRegion size
  heap := ⟨(bssRegion size).start + 4096, 0, PTE_R ||| PTE_W ||| PTE_U⟩
  stack := stackRegion
  heapBreak := (bssRegion size).start + 4096
  stackTop := USER_STACK_TOP
  entry := USER_TEXT_START

/-- An image fits below the stack with its bss page, and a gap. -/
abbrev Fits (size : U64) : Prop := 0x400000 + 4096 * imagePages size + 4096 < 0x3FFFFFE000

theorem layout_eq {size : U64} (hs : size.toNat ≤ 2 ^ 56) :
    processMemoryLayoutInit size 0 0 PAGE_SIZE USER_STACK_SIZE =
      if Fits size then some (imageLayout size) else none := by
  have hn : imagePages size ≤ 2 ^ 45 := by rw [imagePages]; omega
  have ht : alignUp size PAGE_SIZE = BitVec.ofNat 64 (4096 * imagePages size) := BitVec.eq_of_toNat_eq (by
    rw [toNat_alignUp (by omega), BitVec.toNat_ofNat, imagePages]; omega)
  have hz : alignUp 0 PAGE_SIZE = 0 := by decide
  have hp : alignUp PAGE_SIZE PAGE_SIZE = 4096 := by decide
  have hk : alignUp USER_STACK_SIZE PAGE_SIZE = 4096 := by decide
  have htop : alignDown USER_STACK_TOP PAGE_SIZE = USER_STACK_TOP := by decide
  have hst : USER_STACK_TOP - 4096 = 0x3FFFFFE000 := by decide
  have z : ∀ x : U64, x + 0 = x := BitVec.add_zero
  have hh : (USER_TEXT_START + BitVec.ofNat 64 (4096 * imagePages size) + 4096).toNat =
      0x400000 + 4096 * imagePages size + 4096 := by
    rw [BitVec.toNat_add, BitVec.toNat_add, BitVec.toNat_ofNat, show USER_TEXT_START.toNat = 0x400000 from rfl,
      show (4096 : U64).toNat = 4096 from rfl]
    omega
  rw [processMemoryLayoutInit]
  simp only [ht, hz, hp, hk, htop, z, hst, if_neg (show ¬ (4096 : U64) = 0 by decide), BitVec.le_def, hh,
    show (0x3FFFFFE000 : U64).toNat = 0x3FFFFFE000 from rfl]
  by_cases hf : Fits size
  · rw [if_pos hf, if_neg (by unfold Fits at hf; omega)]
    rfl
  · rw [if_neg hf, if_pos (by unfold Fits at hf; omega)]

/-! ## User addresses -/

/-- The page of an address of a region is one of its user pages. -/
theorem RegionPages.mem {region : MemoryRegion} {ps : List UserPage} (h : RegionPages region n ps)
    (hal : Aligned region.start) (hlt : region.start.toNat + 4096 * n ≤ 2 ^ 64) {a : U64}
    (ha : region.start.toNat ≤ a.toNat ∧ a.toNat < region.start.toNat + 4096 * n) :
    ∃ u ∈ ps, u.page = vpnOf a ∧ u.flags = region.flags := by
  have hp : vpnOf a ∈ ps.map (·.page) := by
    rw [h.pages, List.mem_map]
    refine ⟨(a.toNat - region.start.toNat) / 4096, List.mem_range.mpr (by omega), BitVec.eq_of_toNat_eq ?_⟩
    unfold Aligned at hal
    rw [vpnOf_toNat, vpnOf_toNat, BitVec.toNat_add, toNat_pageOff (by omega)]
    omega
  obtain ⟨u, hu, hpage⟩ := List.mem_map.mp hp
  exact ⟨u, hu, hpage, h.flags u hu⟩

/-- The physical address of `a` in a user page. -/
def UserPage.addr (u : UserPage) (a : U64) : U64 := u.frame + (a &&& (PAGE_SIZE - 1))

theorem UserPage.inFrame {u : UserPage} (hu : IsFrame u.frame) (a : U64) : InFrame u.frame (u.addr a) := by
  have hlt := toNat_pageOffset_lt a
  have hal := hu.aligned; have := hu.lt
  unfold Aligned at hal
  rw [InFrame, UserPage.addr, BitVec.toNat_add]
  omega

section Pages

variable {ps : List UserPage} (h : Loaded root s ps s')

include h

/-- A user page translates its addresses. -/
theorem Loaded.translate {u : UserPage} (hu : u ∈ ps) (hf : FlagsOk u.flags) {a : U64}
    (ha : u.page = vpnOf a) : (RvOs.space s'.mem root).translate a = some (u.addr a, leafFlags u.flags) := by
  have hd := (h.data u hu).frame
  have hlt := hd.lt
  rw [AddrSpace.translate, (h.space _ _).mpr (.inr ⟨u, hu, ha.symm, rfl⟩), Option.map_some, UserPage.pte,
    leafAt_pte hf.1 (by omega) hd.aligned, UserPage.addr]

/-- The bytes of user pages are in the frames handed out. -/
theorem Loaded.addr_handedOut {u : UserPage} (hu : u ∈ ps) {a x : U64} (hx : InFrame (u.addr a) x) :
    s.allocator.current.toNat ≤ x.toNat ∧ x.toNat < s'.allocator.current.toNat := by
  have hd := h.data u hu
  have hle := hd.le
  have hlt := hd.lt
  have hal := hd.frame.aligned
  have hi := u.inFrame hd.frame a
  unfold Aligned at hal
  unfold InFrame at hi hx
  omega

/-- Two addresses in one frame are of one user page. -/
theorem Loaded.eq_of_addr {u u' : UserPage} (hu : u ∈ ps) (hu' : u' ∈ ps) {a a' : U64}
    (he : InFrame (u.addr a) (u'.addr a')) : u = u' := by
  have hal := (h.data u hu).frame.aligned; have hal' := (h.data u' hu').frame.aligned
  have hi := u.inFrame (h.data u hu).frame a; have hi' := u'.inFrame (h.data u' hu').frame a'
  have hfe : u.frame = u'.frame := by
    unfold Aligned at hal hal'
    unfold InFrame at he hi hi'
    exact BitVec.eq_of_toNat_eq (by omega)
  have hnd : (ps.map (·.frame)).Nodup := List.pairwise_map.mpr h.apart
  exact List.inj_on_of_nodup_map hnd hu hu' hfe

/-- Different canonical addresses of user pages have different physical addresses. -/
theorem Loaded.addr_inj {u u' : UserPage} (hu : u ∈ ps) (hu' : u' ∈ ps) {a a' : U64} (ha : u.page = vpnOf a)
    (ha' : u'.page = vpnOf a') (hc : Canonical a) (hc' : Canonical a') (he : u.addr a = u'.addr a') : a = a' := by
  obtain rfl := h.eq_of_addr hu hu' (show InFrame (u.addr a) (u'.addr a') by rw [he, InFrame])
  have hpg := vpnOf_inj hc hc' (ha.symm.trans ha')
  rw [UserPage.addr, UserPage.addr, BitVec.add_right_inj] at he
  have ho := congrArg BitVec.toNat he
  rw [toNat_pageOffset, toNat_pageOffset] at ho
  exact BitVec.eq_of_toNat_eq (by omega)

/-- No byte of a user page is in a page table. -/
theorem Loaded.not_table {u : UserPage} (hu : u ∈ ps) (a : U64) :
    ∀ p f, p.length ≤ 2 → tableAt s'.mem root p = some f → ¬ InFrame f (u.addr a) := fun p f hp hf hin => by
  have hal := (h.data u hu).frame.aligned
  have hal' := h.inv.tables.aligned hp hf
  have hi := u.inFrame (h.data u hu).frame a
  unfold Aligned at hal hal'
  unfold InFrame at hin hi
  obtain rfl : f = u.frame := BitVec.eq_of_toNat_eq (by omega)
  exact (h.data u hu).data p hp hf

end Pages

/-! ## The copy -/

theorem phys_load8 (m : Mem) (p : Addr) : View.load8 .phys m p = some (m p) := by
  have := View.offset_load8 m 0 p
  rwa [show p + 0 = p from BitVec.add_zero p] at this

/-- One iteration of the copy. -/
theorem copyBytes_step {V S : View} {r : Addr} {m₀ m m' : Mem} {k : Nat} {pa fl : U64} {x : Byte}
    (he : copyBytes V S r va src m₀ k = some (true, m))
    (hq : pagingQuery V r (va + BitVec.ofNat 64 k) m = some (some (pa, fl)))
    (hl : S.load8 m (src + BitVec.ofNat 64 k) = some x) (hs : V.store8 m (physToVirt pa) x = some m') :
    copyBytes V S r va src m₀ (k + 1) = some (true, m') := by
  rw [copyBytes, he]
  simp only [Option.bind_eq_bind, Option.bind_some, Bool.not_true, Bool.false_eq_true, ite_false, hq, hl, hs]
  rfl

/-- Bytes written outside the tables keep them. -/
theorem space_of_bytes {m m' : Mem} {cur : Nat} (ht : Tables m root cur)
    (h : ∀ p f a, p.length ≤ 2 → tableAt m root p = some f → InFrame f a → m' a = m a) :
    space m' root = space m root :=
  space_congr fun p f i hp hf => entry_congr (ht.aligned hp hf) (fun a ha => h p f a hp hf ha) i

variable (va src) in
/-- The copy of `n` bytes to the addresses `t`, which are not in page tables or in the source. -/
theorem copyBytes_ok (h : KInv root s) (hr : root + KERNEL_DIRECT_MAP_BASE ≠ 0) (t fl : Nat → U64)
    (ht : ∀ i < n, (space s.mem root).translate (va + BitVec.ofNat 64 i) = some (t i, fl i))
    (hinj : ∀ i < n, ∀ j < n, t i = t j → i = j)
    (hdata : ∀ i < n, ∀ p f, p.length ≤ 2 → tableAt s.mem root p = some f → ¬ InFrame f (t i))
    (hsrc : ∀ i < n, ∀ j < n, src + BitVec.ofNat 64 i ≠ t j) :
    ∀ k ≤ n, ∃ m, copyBytes .direct .phys (root + KERNEL_DIRECT_MAP_BASE) va src s.mem k = some (true, m) ∧
      (∀ i < k, m (t i) = s.mem (src + BitVec.ofNat 64 i)) ∧ ∀ a, (∀ i < k, a ≠ t i) → m a = s.mem a
  | 0, _ => ⟨s.mem, rfl, by simp, fun _ _ => rfl⟩
  | k + 1, hk => by
    obtain ⟨m, he, hcopied, hrest⟩ := copyBytes_ok h hr t fl ht hinj hdata hsrc k (by omega)
    have hsp : space m root = space s.mem root := space_of_bytes h.tables fun p f a hp hf hin =>
      hrest a fun i hi e => hdata i (by omega) p f hp hf (e ▸ hin)
    have hq : pagingQuery .direct (root + KERNEL_DIRECT_MAP_BASE) (va + BitVec.ofNat 64 k) m =
        some (some (t k, fl k)) := by
      rw [← physToVirt, pagingQuery_physToVirt hr, hsp, ht k hk]
    have hs : m (src + BitVec.ofNat 64 k) = s.mem (src + BitVec.ofNat 64 k) :=
      hrest _ fun i hi => hsrc k hk i (by omega)
    refine ⟨m.write8 (t k) (s.mem (src + BitVec.ofNat 64 k)), ?_, fun i hi => ?_, fun a ha => ?_⟩
    · exact copyBytes_step he hq ((phys_load8 ..).trans (congrArg some hs)) (View.offset_store8 ..)
    · rcases Nat.lt_succ_iff_lt_or_eq.mp hi with hi | rfl
      · rw [Mem.write8_of_ne _ _ fun e => by have := hinj i (by omega) k hk e; omega]
        exact hcopied i hi
      · exact Mem.write8_self ..
    · rw [Mem.write8_of_ne _ _ (ha k (by omega))]
      exact hrest a fun i hi => ha i (by omega)

/-! ## The loader -/

/-- Address `i` of the text. -/
abbrev textAddr (i : Nat) : U64 := USER_TEXT_START + BitVec.ofNat 64 i

/-- What a loader that returns true did: it mapped the pages `text`, `bss` and
`stack`, which led to `s₁`, and copied the image. -/
structure LoadSteps (root : Addr) (s : KState) (src : Addr) (size : U64) (text bss stack : List UserPage)
    (s₁ s' : KState) : Prop where
  fits : Fits size
  loaded : Loaded root s (text ++ (bss ++ stack)) s₁
  textPages : RegionPages (textRegion size) (imagePages size) text
  bssPages : RegionPages (bssRegion size) 1 bss
  stackPages : RegionPages stackRegion 1 stack
  allocator : s'.allocator = s₁.allocator
  copied : ∀ i < size.toNat, ∀ u ∈ text, u.page = vpnOf (textAddr i) →
    s'.mem (u.addr (textAddr i)) = s.mem (src + BitVec.ofNat 64 i)
  rest : ∀ a, (∀ i < size.toNat, ∀ u ∈ text, u.page = vpnOf (textAddr i) → a ≠ u.addr (textAddr i)) →
    s'.mem a = s₁.mem a

theorem toNat_textAddr {i : Nat} (hi : 0x400000 + i < 2 ^ 64) : (textAddr i).toNat = 0x400000 + i := by
  rw [BitVec.toNat_add, BitVec.toNat_ofNat, show USER_TEXT_START.toNat = 0x400000 from rfl]
  omega

theorem flagsOk_text : FlagsOk (PTE_R ||| PTE_X ||| PTE_U) := ⟨by decide, by decide⟩
theorem flagsOk_data : FlagsOk (PTE_R ||| PTE_W ||| PTE_U) := ⟨by decide, by decide⟩

theorem loadRegions_flagsOk (size : U64) : ∀ r ∈ loadRegions (imageLayout size), FlagsOk r.flags := by
  simp only [loadRegions, List.forall_mem_cons, List.not_mem_nil, false_imp_iff, implies_true, and_true]
  exact ⟨flagsOk_text, flagsOk_data, flagsOk_data⟩

theorem textRegion_pages {size : U64} (hfit : Fits size) :
    (textRegion size).size.toNat / 4096 = imagePages size := by
  rw [textRegion, BitVec.toNat_ofNat]; omega

theorem LoadSteps.flagsOk {size : U64} {text bss stack : List UserPage}
    (h : LoadSteps root s src size text bss stack s₁ s') : ∀ u ∈ text ++ (bss ++ stack), FlagsOk u.flags := by
  simp only [List.forall_mem_append]
  exact ⟨fun u hu => h.textPages.flags u hu ▸ flagsOk_text, fun u hu => h.bssPages.flags u hu ▸ flagsOk_data,
    fun u hu => h.stackPages.flags u hu ▸ flagsOk_data⟩

/-- The page of an address of the image. -/
theorem text_page {size : U64} {text : List UserPage} (hp : RegionPages (textRegion size) (imagePages size) text)
    (hfit : Fits size) {a : U64}
    (ha : 0x400000 ≤ a.toNat ∧ a.toNat < 0x400000 + 4096 * imagePages size) :
    ∃ u ∈ text, u.page = vpnOf a ∧ u.flags = PTE_R ||| PTE_X ||| PTE_U :=
  hp.mem (show Aligned USER_TEXT_START by decide) (by
    rw [show (textRegion size).start.toNat = 0x400000 from rfl]; omega) ha

/-- The copy, once the pages of the text are mapped. -/
theorem copyImage_ok {size : U64} {ps text : List UserPage} (h : Loaded root s ps s₁)
    (hf : ∀ u ∈ text, FlagsOk u.flags) (hps : ∀ u ∈ text, u ∈ ps) (hr : root + KERNEL_DIRECT_MAP_BASE ≠ 0)
    (htext : RegionPages (textRegion size) (imagePages size) text)
    (hfit : Fits size)
    (hsrc : ∀ i < size.toNat, (src + BitVec.ofNat 64 i).toNat < s.allocator.current.toNat ∧
      ∀ p f, p.length ≤ 2 → tableAt s.mem root p = some f → ¬ InFrame f (src + BitVec.ofNat 64 i)) :
    ∃ m, copyIntoRegion .direct .phys (root + KERNEL_DIRECT_MAP_BASE) USER_TEXT_START src size s₁.mem =
        some (true, m) ∧
      (∀ i < size.toNat, ∀ u ∈ text, u.page = vpnOf (textAddr i) →
        m (u.addr (textAddr i)) = s.mem (src + BitVec.ofNat 64 i)) ∧
      ∀ a, (∀ i < size.toNat, ∀ u ∈ text, u.page = vpnOf (textAddr i) → a ≠ u.addr (textAddr i)) →
        m a = s₁.mem a := by
  have hsz : size.toNat ≤ 4096 * imagePages size := by rw [imagePages]; omega
  -- the page of each byte
  have hex : ∀ i, ∃ u : UserPage, i < size.toNat → u ∈ text ∧ u.page = vpnOf (textAddr i) ∧
      u.flags = PTE_R ||| PTE_X ||| PTE_U := fun i => by
    by_cases hi : i < size.toNat
    · have hti := toNat_textAddr (i := i) (by omega)
      obtain ⟨u, hu, hp, hfl⟩ := text_page htext hfit (a := textAddr i) (by omega)
      exact ⟨u, fun _ => ⟨hu, hp, hfl⟩⟩
    · exact ⟨⟨0, 0, 0⟩, fun h => absurd h hi⟩
  choose pg hpg using hex
  have hcan : ∀ i < size.toNat, Canonical (textAddr i) := fun i hi => by
    unfold Canonical; rw [toNat_textAddr (by omega)]; omega
  have htr : ∀ i < size.toNat, (RvOs.space s₁.mem root).translate (textAddr i) =
      some ((pg i).addr (textAddr i), leafFlags (PTE_R ||| PTE_X ||| PTE_U)) := fun i hi => by
    obtain ⟨hu, hp, hfl⟩ := hpg i hi
    rw [h.translate (hps _ hu) (hf _ hu) hp, hfl]
  have huniq : ∀ i < size.toNat, ∀ u ∈ text, u.page = vpnOf (textAddr i) →
      u.addr (textAddr i) = (pg i).addr (textAddr i) := fun i hi u hu hp => by
    have htu := h.translate (hps u hu) (hf u hu) hp
    rw [htr i hi] at htu
    exact (congrArg Prod.fst (Option.some.inj htu)).symm
  have hinj : ∀ i < size.toNat, ∀ j < size.toNat,
      (pg i).addr (textAddr i) = (pg j).addr (textAddr j) → i = j := fun i hi j hj e => by
    have ha := congrArg BitVec.toNat (h.addr_inj (hps _ (hpg i hi).1) (hps _ (hpg j hj).1) (hpg i hi).2.1
      (hpg j hj).2.1 (hcan i hi) (hcan j hj) e)
    rw [toNat_textAddr (by omega), toNat_textAddr (by omega)] at ha
    omega
  -- the source is below the frames handed out
  have hsep : ∀ i < size.toNat, ∀ j < size.toNat, src + BitVec.ofNat 64 i ≠ (pg j).addr (textAddr j) :=
      fun i hi j hj e => by
    have hge := (h.addr_handedOut (hps _ (hpg j hj).1) (a := textAddr j) rfl).1
    have hlt := (hsrc i hi).1
    rw [e] at hlt
    omega
  obtain ⟨m, hm, hcopied, hrest⟩ := copyBytes_ok (n := size.toNat) USER_TEXT_START src h.inv hr
    (fun i => (pg i).addr (textAddr i)) (fun _ => leafFlags (PTE_R ||| PTE_X ||| PTE_U)) htr hinj
    (fun i hi => h.not_table (hps _ (hpg i hi).1) _) hsep size.toNat (Nat.le_refl _)
  refine ⟨m, ?_, fun i hi u hu hp => ?_, fun a ha => hrest a fun i hi => ?_⟩
  · rw [copyIntoRegion, if_neg fun h => hr h.1, hm]
  · rw [huniq i hi u hu hp, hcopied i hi]
    exact h.grows.grows.mem _ (.inl (hsrc i hi).1) (hsrc i hi).2
  · exact ha i hi _ (hpg i hi).1 (hpg i hi).2.1

/-- A loader that returns true. -/
theorem processLoad_ok (h : KInv root s) {imageStart imageEnd : Addr} {program : LoadedUserProgram}
    (hsz : (imageEnd - imageStart).toNat ≤ 2 ^ 56)
    (hsrc : ∀ i < (imageEnd - imageStart).toNat, (imageStart + BitVec.ofNat 64 i).toNat < s.allocator.current.toNat ∧
      ∀ p f, p.length ≤ 2 → tableAt s.mem root p = some f → ¬ InFrame f (imageStart + BitVec.ofNat 64 i))
    (hl : processLoadInitialUserProgram .direct .phys (physToVirt root) imageStart imageEnd s =
      some (some program, s')) :
    program = ⟨USER_TEXT_START, USER_STACK_TOP⟩ ∧ physToVirt root ≠ 0 ∧
      ∃ text bss stack s₁, LoadSteps root s imageStart (imageEnd - imageStart) text bss stack s₁ s' := by
  rw [processLoadInitialUserProgram] at hl
  split at hl
  · cases hl
  rename_i hr
  generalize imageEnd - imageStart = size at hsz hsrc hl ⊢
  simp only at hl
  rw [layout_eq hsz] at hl
  by_cases hfit : Fits size
  swap
  · rw [if_neg hfit] at hl; cases hl
  rw [if_pos hfit] at hl
  obtain ⟨⟨b₁, s₁⟩, hm, hl⟩ := Option.bind_eq_some_iff.mp hl
  cases b₁ with
  | false => simp at hl
  | true =>
    obtain ⟨pss, hloaded, hpages⟩ := mapRegions_ok hr h (loadRegions_flagsOk size) hm
    rcases hpages with _ | ⟨hpt, _ | ⟨hpb, _ | ⟨hpk, _ | _⟩⟩⟩
    rename_i text bss stack
    rw [List.flatten_cons, List.flatten_cons, List.flatten_cons, List.flatten_nil, List.append_nil] at hloaded
    have hpt : RegionPages (textRegion size) (imagePages size) text := textRegion_pages hfit ▸ hpt
    have h1 : (4096 : U64).toNat / 4096 = 1 := by decide
    have hpb : RegionPages (bssRegion size) 1 bss := h1 ▸ hpb
    have hpk : RegionPages stackRegion 1 stack := h1 ▸ hpk
    obtain ⟨m, hc, hcopied, hrest⟩ := copyImage_ok hloaded (fun u hu => hpt.flags u hu ▸ flagsOk_text)
      (fun u hu => List.mem_append_left _ hu) hr hpt hfit hsrc
    simp only [Bool.not_true, Bool.false_eq_true, ite_false] at hl
    rw [show physToVirt root = root + KERNEL_DIRECT_MAP_BASE from rfl,
      show (imageLayout size).text.start = USER_TEXT_START from rfl, hc] at hl
    simp only [Option.bind_eq_bind, Option.bind_some, Bool.not_true, Bool.false_eq_true, ite_false,
      Option.pure_def, Option.some.injEq, Prod.mk.injEq] at hl
    obtain ⟨rfl, rfl⟩ := hl
    exact ⟨rfl, hr, text, bss, stack, s₁, hfit, hloaded, hpt, hpb, hpk, rfl, hcopied, hrest⟩

end RvOs
