import RvOs.Proof.LoadCorrect
import RvOs.Proof.TrapStacks
import RvOs.Proof.UserRuns
import RvOs.Spec.UserBoot

/-!
# The user program is started

`paging_init`, the loader and `user_enter` leave a hart that is ready to run the
user program (`user_boots`): in U-mode, with the image at its entry, zeros in
the rest of its memory, and the kernel's stack and page tables out of reach.
-/

namespace RvOs

open RiscV

/-! ## `sstatus` in U-mode -/

theorem sie_bit : ∀ i < 64, SSTATUS_SIE.getLsbD i = decide (i = 1) := by decide
theorem spie_bit : ∀ i < 64, SSTATUS_SPIE.getLsbD i = decide (i = 5) := by decide
theorem spp_bit : ∀ i < 64, SSTATUS_SPP.getLsbD i = decide (i = 8) := by decide
theorem sum_bit : ∀ i < 64, SSTATUS_SUM.getLsbD i = decide (i = 18) := by decide

theorem hasFlag_sum (x : U64) : hasFlag x SSTATUS_SUM = x.getLsbD 18 := by
  cases hx : x.getLsbD 18 with
  | false =>
    have hz : x &&& SSTATUS_SUM = 0 := BitVec.eq_of_getLsbD_eq fun i hi => by
      rw [BitVec.getLsbD_and, sum_bit i hi]
      by_cases h : i = 18
      · rw [h, hx, Bool.false_and]
        exact BitVec.getLsbD_zero.symm
      · rw [decide_eq_false h, Bool.and_false]
        exact BitVec.getLsbD_zero.symm
    rw [hasFlag, hz]
    rfl
  | true =>
    rw [hasFlag, bne_iff_ne]
    intro hz
    have hb : (x &&& SSTATUS_SUM).getLsbD 18 = false := by
      rw [hz]
      rfl
    rw [BitVec.getLsbD_and, hx, sum_bit 18 (by decide)] at hb
    cases hb

/-- SPIE moved to SIE, -/
theorem spie_shift (x : U64) (i : Nat) :
    ((x &&& SSTATUS_SPIE) >>> 4).getLsbD i = (decide (i = 1) && x.getLsbD 5) := by
  rw [BitVec.getLsbD_ushiftRight, BitVec.getLsbD_and]
  by_cases hi : 4 + i < 64
  · rw [spie_bit _ hi]
    by_cases h1 : i = 1
    · simp [h1]
    · simp [h1, show 4 + i ≠ 5 by omega]
  · rw [BitVec.getLsbD_of_ge _ _ (by omega), Bool.false_and, decide_eq_false (by omega), Bool.false_and]

/-- and SIE to SPIE. -/
theorem sie_shift (x : U64) {i : Nat} (hi : i < 64) :
    ((x &&& SSTATUS_SIE) <<< 4).getLsbD i = (decide (i = 5) && x.getLsbD 1) := by
  rw [BitVec.getLsbD_shiftLeft, BitVec.getLsbD_and, sie_bit _ (by omega)]
  by_cases h5 : i = 5
  · simp [h5]
  · by_cases h4 : i < 4
    · simp [h4, h5]
    · simp [h5, show i - 4 ≠ 1 by omega]

/-- The bits after an `sret`: SPIE is set, SPP clear, and SIE what SPIE was. -/
theorem sretStatus_bit (x : U64) {i : Nat} (hi : i < 64) : (sretStatus x).getLsbD i =
    if i = 5 then true else if i = 8 then false else if i = 1 then x.getLsbD 5 else x.getLsbD i := by
  rw [sretStatus, BitVec.getLsbD_or, spie_shift, BitVec.getLsbD_or, BitVec.getLsbD_and, BitVec.getLsbD_not,
    BitVec.getLsbD_or, spp_bit i hi, sie_bit i hi, spie_bit i hi]
  split_ifs with h5 h8 h1
  · simp [h5]
  · simp [h8]
  · simp [h1]
  · simp [h5, h8, h1, hi]

/-- The bits after a trap from U-mode: SPIE is what SIE was, SPP and SIE are clear. -/
theorem takenStatus_bit (x : U64) {i : Nat} (hi : i < 64) : (takenStatus .user x).getLsbD i =
    if i = 5 then x.getLsbD 1 else if i = 8 then false else if i = 1 then false else x.getLsbD i := by
  rw [takenStatus, trapStatus, BitVec.getLsbD_and, BitVec.getLsbD_not, BitVec.getLsbD_or, sie_shift _ hi,
    BitVec.getLsbD_or, BitVec.getLsbD_and, BitVec.getLsbD_not, BitVec.getLsbD_or, spp_bit i hi, sie_bit i hi,
    spie_bit i hi]
  split_ifs with h5 h8 h1
  · simp [h5]
  · simp [h8]
  · simp [h1]
  · simp [h5, h8, h1, hi]

theorem taken_sret (x : U64) : sretStatus (takenStatus .user (sretStatus x)) = sretStatus x := by
  refine BitVec.eq_of_getLsbD_eq fun i hi => ?_
  rw [sretStatus_bit _ hi, takenStatus_bit _ (by decide), takenStatus_bit _ hi, sretStatus_bit _ hi,
    sretStatus_bit _ (by decide)]
  split_ifs <;> simp_all

/-- After an `sret` the traps and returns of U-mode keep `sstatus`, with SUM clear if it was. -/
theorem userStatus_sret {x : U64} (h : hasFlag x SSTATUS_SUM = false) : UserStatus (sretStatus x) := by
  refine ⟨taken_sret x, ?_⟩
  rw [hasFlag_sum] at h
  rw [hasFlag_sum, takenStatus_bit _ (by decide)]
  exact (sretStatus_bit x (by decide)).trans h

theorem contextStatus_sum {sstatus entry stackTop arg0 arg1 : U64} (h : hasFlag sstatus SSTATUS_SUM = false) :
    hasFlag (userContextInit sstatus entry stackTop arg0 arg1).status SSTATUS_SUM = false := by
  rw [hasFlag_sum] at h ⊢
  rw [userContextInit]
  dsimp only
  rw [BitVec.getLsbD_and, BitVec.getLsbD_or, BitVec.getLsbD_and, h, Bool.false_and, Bool.false_or,
    spie_bit 18 (by decide)]
  rfl

/-! ## `user_enter` -/

/-- The registers that a context gives. -/
def UserContext.reg (c : UserContext) : Reg → U64
  | .zero => 0
  | .ra => c.ra | .sp => c.sp | .gp => c.gp | .tp => c.tp
  | .t0 => c.t0 | .t1 => c.t1 | .t2 => c.t2
  | .s0 => c.s0 | .s1 => c.s1
  | .a0 => c.a0 | .a1 => c.a1 | .a2 => c.a2 | .a3 => c.a3
  | .a4 => c.a4 | .a5 => c.a5 | .a6 => c.a6 | .a7 => c.a7
  | .s2 => c.s2 | .s3 => c.s3 | .s4 => c.s4 | .s5 => c.s5 | .s6 => c.s6
  | .s7 => c.s7 | .s8 => c.s8 | .s9 => c.s9 | .s10 => c.s10 | .s11 => c.s11
  | .t3 => c.t3 | .t4 => c.t4 | .t5 => c.t5 | .t6 => c.t6

/-- `user_enter` leaves the context in the registers and the CSRs. -/
structure Entered (s s' : State) : Prop where
  reg : ∀ r, s'.get r = (contextAt s.mem (s.get .a0)).reg r
  sepc : s'.csr .sepc = (contextAt s.mem (s.get .a0)).epc
  sstatus : s'.csr .sstatus = (contextAt s.mem (s.get .a0)).status
  sscratch : s'.csr .sscratch = s.csr .sscratch
  mem : s'.mem = s.mem

theorem userEnter_entered (s : State) : ∃ s', run (fun _ => userEnter) id 1 () s = some s' ∧ Entered s s' := by
  obtain ⟨k, v, hk, hin, hout⟩ := csrLoads_ok (by decide : Reg.t0 ≠ .zero) (by decide : Reg.a0 ≠ .t0)
    [(.sepc, 248), (.sstatus, 256)] s (by decide)
  let w : State := { s.set .t0 v with csr := k }
  obtain ⟨g, hg, hgin, hgout⟩ := loads_ok .a0 contextSlots w (by decide) (by decide) (by decide)
  have ha0 : w.get .a0 = s.get .a0 := State.get_set_of_ne s v (by decide : Reg.a0 ≠ .t0)
  rw [ha0] at hgin
  have hlast : g .a0 = s.get .a0 := (hgout .a0 (by decide)).trans ha0
  have hrun : execAll userEnter.body s = exec { w with gpr := g } (.ld .a0 72 .a0) := by
    rw [userEnter_body, execAll_append, hk, execAll_append, hg]
    rfl
  refine ⟨_, run_sret _ _ rfl, ?_⟩
  rw [hrun]
  refine ⟨fun r => ?_, hin (.sepc, 248) (by decide), hin (.sstatus, 256) (by decide), hout .sscratch (by decide), rfl⟩
  have hword : ∀ p ∈ contextSlots, (contextAt s.mem (s.get .a0)).reg p.1 =
      s.mem.read64 (s.get .a0 + BitVec.ofNat 64 p.2) := by
    have hslots : contextSlots = (.ra, 0) :: (.sp, 8) :: (frameSlots.drop 2).filter (·.1 ≠ .a0) := rfl
    simp [hslots, frameSlots, UserContext.reg, contextAt]
  rw [exec, State.get_set]
  by_cases hz : r = .zero
  · rw [if_pos hz, hz]
    rfl
  by_cases hr : r = .a0
  · rw [if_neg hz, if_pos hr, hr]
    show s.mem.read64 (g .a0 + 72) = _
    rw [hlast]
    rfl
  have hmem : r ∈ contextSlots.map (·.1) := by
    cases r <;> first | decide | contradiction
  obtain ⟨p, hp, rfl⟩ := List.mem_map.mp hmem
  rw [if_neg hz, if_neg hr, hword p hp]
  exact (if_neg hz).trans (hgin p hp)

/-! ## The address space -/

variable {sym : KernelSymbols} {platform : PlatformInfo} {b b' : BootState} {g src imageStart imageEnd : Addr}
  {s' s₁ : KState} {size : U64} {text bss stack : List UserPage} {program : LoadedUserProgram} {k : KernelImage}

theorem textAddr_sub (i : Nat) : textAddr i - USER_TEXT_START = BitVec.ofNat 64 i := by
  rw [textAddr, BitVec.add_comm, BitVec.add_sub_cancel]

section Loaded

variable (hg : KernelTables sym platform b b' g) (h : LoadSteps g b'.toKState src size text bss stack s₁ s')

include hg h

/-- The page tables are in frames that the allocator handed out. -/
theorem LoadSteps.table_ge {p : List Idx} {f : Addr} (hp : p.length ≤ 2) (hf : RvOs.tableAt s'.mem g p = some f) :
    b.allocator.current.toNat ≤ f.toNat := by
  rw [h.tableAt hp] at hf
  have hle := hg.le
  rcases h.loaded.grows.grows.fresh p f hp hf with hf | ⟨-, hge, -⟩
  · exact hg.tables p f hp hf
  · omega

/-- A page for U-mode, by the tables. -/
theorem LoadSteps.userPage {va pa fl : U64} (ht : Translation.ofTables s'.mem g va = some (pa, fl))
    (hu : hasFlag fl PTE_U = true) :
    Canonical va ∧ ∃ u ∈ text ++ (bss ++ stack), u.page = vpnOf va ∧ pa = u.addr va := by
  obtain ⟨hc, e, he, -, hle⟩ := sv39Translate_some h.inv.tables ht
  exact ⟨hc, h.user_leaf hg he hle hu⟩

/-- The user program has an address space of its own, apart from a stack below the frames handed out. -/
theorem LoadSteps.userSpace (hk : k.stackTop.toNat ≤ b.allocator.current.toNat) :
    UserSpace g k.onBootStack k.stackTop (.ofTables s'.mem g) s'.mem := by
  have hle := hg.le
  refine ⟨fun m' hm => funext fun va => ?_, fun va va' pa fl fl' ht hu ht' hu' => ?_,
    fun va pa fl ht hu hs => ?_, fun a ha => ?_⟩
  · refine sv39Translate_congr h.inv.tables (fun p f i hp hf => ?_) va
    have hge := h.table_ge hg hp hf
    have hal := h.inv.tables.aligned hp hf
    refine entry_congr hal (fun a ha => hm a (fun ⟨va, fl, ht, hu, _⟩ => ?_) fun hs => ?_) i
    · obtain ⟨-, u, hu, -, rfl⟩ := h.userPage hg ht hu
      rw [h.tableAt hp] at hf
      exact h.loaded.not_table hu va p f hp hf ha
    · have hlt := hs.2
      unfold InFrame at ha
      unfold Aligned at hal
      omega
  · obtain ⟨hc, u, hm, hp, rfl⟩ := h.userPage hg ht hu
    obtain ⟨hc', u', hm', hp', he⟩ := h.userPage hg ht' hu'
    exact h.loaded.addr_inj hm hm' hp hp' hc hc' he
  · obtain ⟨-, u, hm, -, rfl⟩ := h.userPage hg ht hu
    have hge := (h.loaded.addr_handedOut hm (a := va) rfl).1
    have hlt := hs.2
    omega
  · have hboot := k.topOfStack.boot
    have hlt := k.stackTop.isLt
    rw [BitVec.toNat_sub, BitVec.toNat_sub] at ha
    have h288 : (288 : U64).toNat = 288 := rfl
    rw [h288] at ha
    exact ⟨by omega, by omega⟩

/-- The program has its image, and zeros in the rest of its memory. -/
theorem LoadSteps.task_mem (hk : k.stackTop.toNat ≤ b.allocator.current.toNat) {m : UserHart}
    (hm : ∀ a, ¬ k.onBootStack a → m.mem a = s'.mem a) (va : U64) :
    (m.task (.ofTables s'.mem g)).mem va =
      if (va - USER_TEXT_START).toNat < size.toNat then b'.mem (src + (va - USER_TEXT_START)) else 0 := by
  have hsp := h.userSpace hg hk
  split
  · -- a byte of the image
    rename_i hi
    obtain ⟨i, hlt, rfl⟩ : ∃ i < size.toNat, va = textAddr i :=
      ⟨_, hi, by rw [textAddr, BitVec.ofNat_toNat, BitVec.setWidth_eq, BitVec.add_comm, BitVec.sub_add_cancel]⟩
    have hfit := h.fits
    have hsz : size.toNat ≤ 4096 * imagePages size := by rw [imagePages]; omega
    have hti := toNat_textAddr (i := i) (by omega)
    have hge : 0x400000 ≤ (textAddr i).toNat := by omega
    obtain ⟨u, hu, hpage, ht⟩ := h.translates_text hge (by omega)
    have hU : hasFlag (leafFlags (PTE_R ||| PTE_X ||| PTE_U)) PTE_U = true := by decide
    rw [UserHart.task_mem ht hU, hm _ (hsp.apart _ _ _ ht hU), h.copied i hlt u hu hpage, textAddr_sub]
  · rename_i hi
    by_cases hu : (Translation.ofTables s'.mem g).isUser va = true
    · obtain ⟨pa, fl, ht, hU⟩ := isUser_iff.mp hu
      obtain ⟨hc, u, hmem, hpage, rfl⟩ := h.userPage hg ht hU
      rw [UserHart.task_mem ht hU, hm _ (hsp.apart _ _ _ ht hU)]
      refine h.zero hmem hpage hc ?_
      rintro i hlt rfl
      refine hi ?_
      have hfit := h.fits
      have hsz : size.toNat ≤ 4096 * imagePages size := by rw [imagePages]; omega
      rw [textAddr_sub, BitVec.toNat_ofNat]
      omega
    · exact UserHart.task_other (eq_false_of_ne_true hu)

end Loaded

/-! ## Boot -/

theorem imageBytes_getD (m : Mem) (imageStart imageEnd : Addr) (o : U64) :
    (imageBytes m imageStart imageEnd).getD o.toNat 0 =
      if o.toNat < (imageEnd - imageStart).toNat then m (imageStart + o) else 0 := by
  rw [imageBytes, List.getD_eq_getElem?_getD, List.getElem?_map]
  split
  · rw [List.getElem?_range ‹_›, Option.map_some, Option.getD_some, BitVec.ofNat_toNat, BitVec.setWidth_eq]
  · rw [List.getElem?_eq_none (by rw [List.length_range]; omega)]
    rfl

/-- From `paging_init` to the `sret` of `user_enter`. -/
theorem user_boots (hw : PlatformWithin (2 ^ 56) platform)
    (hp : physicalPageAllocatorInit platform = (true, b.allocator))
    (hinit : pagingInit sym platform b = some (true, b'))
    (himg : imageStart.toNat ≤ imageEnd.toNat ∧ imageEnd.toNat ≤ platform.kernelEnd.toNat)
    (hl : processLoadInitialUserProgram .direct .phys b'.root imageStart imageEnd b'.toKState =
      some (some program, s'))
    (hk : k.stackTop.toNat ≤ platform.kernelEnd.toNat) {hartid dtb : U64} {s sEnd : State}
    (he : EntersUser k program hartid dtb s'.mem s) (hr : run (fun _ => userEnter) id 1 () s = some sEnd)
    (rx tx : List Byte) :
    Boots k (satpRoot b'.satp) s'.mem (.enter sEnd rx tx)
      (.start (imageBytes b.mem imageStart imageEnd) hartid dtb rx tx) := by
  obtain ⟨g, hg, rfl, -, text, bss, stack, s₁, h⟩ := loadSteps_of_boot hw hp hinit himg hl
  have hcur := (physicalPageAllocatorInit_ok (by decide) hp hw.kernel hw.dtb hw.ram).1
  have hroot : satpRoot b'.satp = g := by rw [hg.satp, satpRoot_makeSatpSv39 hg.frame]
  obtain ⟨_, hr', hs⟩ := userEnter_entered s
  obtain rfl := Option.some.inj (hr'.symm.trans hr)
  have hstack : k.stackTop.toNat ≤ b.allocator.current.toNat := by omega
  have hmem : ∀ a, ¬ k.onBootStack a → _ = s'.mem a := fun a ha => (congrFun hs.mem a).trans (he.mem a ha)
  rw [hroot]
  refine ⟨h.userSpace hg hstack, userStatus_sret ?_, ⟨?_, ?_, rfl, fun a _ ha => hmem a ha⟩, ?_⟩
  · rw [hs.sstatus, he.context]
    exact contextStatus_sum he.sum
  · show sretMode _ = .user
    rw [sretMode, hs.sstatus, he.context, if_pos (userContextInit_spp ..)]
  · exact (hs.sscratch.trans he.sscratch).trans k.topOfStack.supervisorTop
  · rw [UserHart.task, Task.start, Task.mk.injEq, UserState.mk.injEq]
    refine ⟨⟨funext fun r => ?_, ?_, funext fun va => ?_⟩, rfl, rfl⟩
    · refine (hs.reg r).trans ?_
      rw [he.context]
      cases r <;> rfl
    · refine hs.sepc.trans ?_
      rw [he.context]
      rfl
    · refine (h.task_mem hg hstack (m := .enter _ rx tx) hmem va).trans ?_
      rw [imageBytes_getD]
      split
      · -- paging has not touched the image
        rename_i hi
        refine hg.mem _ (.inl ?_)
        rw [BitVec.toNat_sub_of_le himg.1] at hi
        rw [BitVec.toNat_add]
        omega
      · rfl

end RvOs
