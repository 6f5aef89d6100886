import RvOs.Proof.Console
import RvOs.Proof.UserBoot

/-!
# Runs from boot on

From the `sret` of `user_enter` the runs of the hart are those of the user
program (`userBoot_runs_iff`), and none of them changes the kernel
(`userBoot_kernel_kept`). What the program does is up to its image, its
arguments and its input: not to the rest of memory (`user_noninterference`),
and one run that ends shows how all of them do (`userBoot_ends`).
-/

namespace RvOs

open RiscV Relation

namespace UserBoot

variable (B : UserBoot)

theorem calls : ∃ b : BootState, b.mem = B.start.mem ∧
    physicalPageAllocatorInit B.kernel.platform = (true, b.allocator) ∧
    pagingInit B.sym B.kernel.platform b = some (true, B.kernel.toBootState) := by
  obtain ⟨-, -, allocator, ha, hp⟩ := supervisorMain_calls B.main
  exact ⟨{ B.start with allocator, root := 0 }, rfl, ha, hp⟩

theorem boots (rx tx : List Byte) : Boots B.image B.root B.loaded.mem (B.hart rx tx) (B.task rx tx) := by
  obtain ⟨b, hm, ha, hp⟩ := B.calls
  have h := user_boots B.within ha hp B.user B.load B.stack B.enters B.sret rx tx
  rwa [hm] at h

/-- Below the frames handed out memory is as it was. -/
theorem loaded_mem {pa : Addr} (h : pa.toNat < max B.kernel.platform.kernelEnd.toNat
    (B.kernel.platform.dtbAddr.toNat + B.kernel.platform.dtbSize.toNat)) : B.loaded.mem pa = B.start.mem pa := by
  obtain ⟨b, hm, ha, hp⟩ := B.calls
  obtain ⟨g, hg, -, -, text, bss, stack, s₁, hl⟩ := loadSteps_of_boot B.within ha hp B.user B.load
  have hcur := (physicalPageAllocatorInit_ok (by decide) ha B.within.kernel B.within.dtb B.within.ram).1
  have hle := hg.le
  rw [← hm, ← hg.mem pa (.inl (by omega))]
  refine hl.mem_eq (.inl ?_) fun p f hp hf hin => ?_
  · show pa.toNat < B.kernel.allocator.current.toNat
    omega
  · have hge := hg.tables p f hp hf
    have hal := hg.inv.tables.aligned hp hf
    unfold Aligned at hal
    unfold InFrame at hin
    omega

/-- The pages for U-mode are frames handed out. -/
theorem user_above {va pa fl : U64} (ht : B.translation va = some (pa, fl)) (hu : hasFlag fl PTE_U = true) :
    max B.kernel.platform.kernelEnd.toNat (B.kernel.platform.dtbAddr.toNat + B.kernel.platform.dtbSize.toNat) ≤
      pa.toNat := by
  obtain ⟨b, hm, ha, hp⟩ := B.calls
  obtain ⟨g, hg, -, -, text, bss, stack, s₁, hl⟩ := loadSteps_of_boot B.within ha hp B.user B.load
  have hcur := (physicalPageAllocatorInit_ok (by decide) ha B.within.kernel B.within.dtb B.within.ram).1
  have hle := hg.le
  obtain ⟨u, hmem, -, rfl⟩ := hl.user hg ht hu
  have hge := (hl.loaded.addr_handedOut hmem (a := va) rfl).1
  change B.kernel.allocator.current.toNat ≤ _ at hge
  change b.allocator.current.toNat ≤ B.kernel.allocator.current.toNat at hle
  omega

/-! ### Pages -/

/-- Pages that the loader has mapped. -/
theorem mapped : ∃ b text bss stack s₁,
    LoadSteps B.root B.kernel.toKState B.imageStart (B.imageEnd - B.imageStart) text bss stack s₁ B.loaded ∧
      KernelTables B.sym B.kernel.platform b B.kernel.toBootState B.root := by
  obtain ⟨b, -, ha, hp⟩ := B.calls
  obtain ⟨g, hg, -, -, text, bss, stack, s₁, hl⟩ := loadSteps_of_boot B.within ha hp B.user B.load
  have hroot : B.root = g := by rw [UserBoot.root, hg.satp, satpRoot_makeSatpSv39 hg.frame]
  rw [hroot]
  exact ⟨b, text, bss, stack, s₁, hl, hg⟩

/-- The pages of the image are for loads and execution, -/
theorem text_page {va : U64} (h : 0x400000 ≤ va.toNat)
    (hlt : va.toNat < 0x400000 + 4096 * imagePages (B.imageEnd - B.imageStart)) :
    ∃ pa, B.translation va = some (pa, leafFlags (PTE_R ||| PTE_X ||| PTE_U)) := by
  obtain ⟨b, text, bss, stack, s₁, hl, -⟩ := B.mapped
  obtain ⟨u, -, -, ht⟩ := hl.translates_text h hlt
  exact ⟨_, ht⟩

/-- and the one after them for loads and stores. -/
theorem bss_page {va : U64} (h : 0x400000 + 4096 * imagePages (B.imageEnd - B.imageStart) ≤ va.toNat)
    (hlt : va.toNat < 0x400000 + 4096 * imagePages (B.imageEnd - B.imageStart) + 4096) :
    ∃ pa, B.translation va = some (pa, leafFlags (PTE_R ||| PTE_W ||| PTE_U)) := by
  obtain ⟨b, text, bss, stack, s₁, hl, -⟩ := B.mapped
  exact hl.translates_bss h hlt

/-- No store to a page of the image, -/
theorem text_denied {va : U64} (h : 0x400000 ≤ va.toNat)
    (hlt : va.toNat < 0x400000 + 4096 * imagePages (B.imageEnd - B.imageStart)) : ¬ B.translation.Allows .store va := by
  obtain ⟨pa, ht⟩ := B.text_page h hlt
  rintro ⟨pa', fl, ht', hfl⟩
  rw [ht] at ht'
  cases ht'
  exact absurd hfl (by decide)

/-- and all of them to the one after. -/
theorem bss_may (access : Access) {va : U64}
    (h : 0x400000 + 4096 * imagePages (B.imageEnd - B.imageStart) ≤ va.toNat)
    (hlt : va.toNat < 0x400000 + 4096 * imagePages (B.imageEnd - B.imageStart) + 4096) :
    B.translation.userMay access va = true := by
  obtain ⟨pa, ht⟩ := B.bss_page h hlt
  refine userMay_iff.mpr ⟨_, _, ht, by decide, ?_⟩
  cases access with
  | load => decide
  | store => decide

/-! ### Runs -/

section Runs

variable (code : ∀ T, UserCode T)

theorem refines : Refines (UserStep B.root B.image.onBootStack code)
    (TaskStep (code B.translation) B.frameStatus) (Fate.map (UserHart.task B.translation))
    (UserInv B.image.onBootStack B.image.stackTop B.translation B.loaded.mem B.status)
    (TaskOk (code B.translation)) := by
  have hB := B.boots [] []
  exact user_refines hB.space hB.status code

theorem starts (rx tx : List Byte) :
    UserInv B.image.onBootStack B.image.stackTop B.translation B.loaded.mem B.status (.runs (B.hart rx tx)) ∧
      Fate.map (UserHart.task B.translation) (.runs (B.hart rx tx)) = .runs (B.task rx tx) :=
  ⟨(B.boots rx tx).ready, congrArg Fate.runs (B.boots rx tx).task⟩

end Runs

end UserBoot

/-! ## A boot -/

/-- A kernel whose `.bss` is its boot stack. -/
def stackImage : KernelImage where
  boot := .supervisor
  start := 0x80000000
  sections := [bootStackSection]
  stack := by decide
  trapstack := by decide
  mtrapstack := by decide
  fits := by decide

theorem stackImage_top : stackImage.stackBottom = 0x80000000 ∧ stackImage.stackTop = 0x80002000 := by decide

/-- A context on its stack. -/
def sampleContext : Mem :=
  (((Mem.write64 (fun _ => 0) 0x80001008 USER_STACK_TOP).write64 0x80001050 0x80004000).write64 0x800010F8
    USER_TEXT_START).write64 0x80001100 0x20

theorem sampleContext_eq : contextAt sampleContext 0x80001000 =
    userContextInit 0 USER_TEXT_START USER_STACK_TOP 0 0x80004000 := by decide +kernel

theorem contextAt_congr {m m' : Mem} {a : Addr} (h : ∀ x, (x - a).toNat < 288 → m x = m' x) :
    contextAt m a = contextAt m' a := by
  have hword : ∀ o, o + 8 ≤ 288 → m.read64 (a + BitVec.ofNat 64 o) = m'.read64 (a + BitVec.ofNat 64 o) :=
    fun o ho => Mem.read64_congr fun x hx => h x (in_frame ho hx)
  simp (disch := decide) only [contextAt, hword]

variable (m : Mem) (imageEnd : Addr) in
/-- A boot of `samplePlatform` with an image of one page. -/
theorem sample_userBoot (hs : 0x80002000 ≤ imageEnd.toNat) (he : imageEnd.toNat ≤ 0x80004000)
    (hn : imagePages (imageEnd - 0x80002000) = 1) :
    ∃ B : UserBoot, B.start.mem = m ∧ B.imageStart = 0x80002000 ∧ B.imageEnd = imageEnd ∧ B.image = stackImage ∧
      B.kernel.platform = samplePlatform := by
  classical
  have hinfo : platformInfoInit sampleImage .zero (sampleDtb 0x10000000) = (true, samplePlatform) := by decide +kernel
  obtain ⟨b', s', hinit, hl⟩ := sample_load 0x80002000 imageEnd m hs he hn
  have hmain := supervisorMain_eq (b := sampleBoot m) gUartBaseInitial hinfo (sample_allocator m) hinit
  let enter : State :=
    { gpr := fun r => if r = .a0 then 0x80001000 else 0
      csr := fun c => if c = .sscratch then stackImage.symbol .supervisorTrapStackTop else 0
      mem := fun a => if stackImage.onBootStack a then sampleContext a else s'.mem a }
  obtain ⟨leave, hleave, -⟩ := userEnter_entered enter
  have hcontext : contextAt enter.mem 0x80001000 = contextAt sampleContext 0x80001000 := by
    refine contextAt_congr fun x hx => if_pos ?_
    rw [KernelImage.onBootStack, stackImage_top.1, stackImage_top.2]
    have := x.isLt
    rw [BitVec.toNat_sub] at hx
    have h1 : (0x80001000 : U64).toNat = 0x80001000 := rfl
    have h2 : (0x80000000 : U64).toNat = 0x80000000 := rfl
    have h3 : (0x80002000 : U64).toNat = 0x80002000 := rfl
    omega
  let kernel : Supervisor := ⟨b', samplePlatform, gUartBaseInitial⟩
  have henters : EntersUser stackImage ⟨USER_TEXT_START, USER_STACK_TOP⟩ 0 0x80004000 s'.mem enter :=
    ⟨hcontext.trans sampleContext_eq, rfl, show hasFlag 0 SSTATUS_SUM = false by decide, fun a ha => if_neg ha⟩
  exact ⟨{ image := stackImage, symbols := sampleImage, sym := sampleSymbols, imageStart := 0x80002000, imageEnd,
           hartid := 0, dtb := sampleDtb 0x10000000, start := sampleBoot m, kernel, loaded := s', program := _,
           enter, leave, within := sample_within (by decide),
           stack := show stackImage.stackTop.toNat ≤ samplePlatform.kernelEnd.toNat by decide, user := ⟨hs, he⟩,
           main := hmain, load := hl, enters := henters, sret := hleave },
    rfl, rfl, rfl, rfl, rfl⟩

/-- A nop, and an illegal instruction after it. -/
def sampleCode (T : Translation) : UserCode T where
  event u :=
    if u.pc = USER_TEXT_START then .next { u with pc := u.pc + 4, reg := fun r => if r = .zero then 0 else u.reg r }
    else .trap 2 0
  zero := fun _ _ h => by
    split at h
    · cases h
      rfl
    · cases h
  stores := fun _ _ _ h _ => by
    split at h
    · cases h
      rfl
    · cases h
  ebreak := fun _ _ h => by
    split at h
    · cases h
    · cases h

theorem sampleCode_ok (T : Translation) (status : U64) (x : Fate Task) :
    Stays (TaskStep (sampleCode T) status) (TaskOk (sampleCode T)) x := fun y _ => by
  cases y with
  | stops => trivial
  | runs t =>
    intro tval h
    rw [sampleCode] at h
    dsimp only at h
    split at h
    · cases h
    · cases h

/-- The program ends in a panic. -/
theorem sampleCode_run (T : Translation) (status : U64) {t : Task} (hpc : t.pc = USER_TEXT_START) :
    ∃ t', ReflTransGen (TaskStep (sampleCode T) status) (.runs t) (.runs t') ∧
      ReflTransGen (TaskStep (sampleCode T) status) (.runs t) (.stops .panicked (t.tx ++ panicText)) := by
  let u : UserState := { t.toUserState with pc := t.pc + 4, reg := fun r => if r = .zero then 0 else t.reg r }
  let t' : Task := { t with toUserState := u }
  have he : (sampleCode T).event t.toUserState = .next u := if_pos hpc
  have he' : (sampleCode T).event t'.toUserState = .trap 2 0 :=
    if_neg (by rw [show t'.pc = t.pc + 4 from rfl, hpc]; decide)
  have hnop : TaskStep (sampleCode T) status (.runs t) (t.next (sampleCode T) status) := .next t
  have hstop : TaskStep (sampleCode T) status (.runs t') (t'.next (sampleCode T) status) := .next t'
  rw [Task.next, he] at hnop
  rw [Task.next, he'] at hstop
  exact ⟨t', .single hnop, (ReflTransGen.single hnop).tail hstop⟩

/-- A boot of `samplePlatform`, with that program. -/
structure SampleRuns (B : UserBoot) (m : UserHart) : Prop where
  image : B.image = stackImage
  platform : B.kernel.platform = samplePlatform
  runs : ReflTransGen (UserStep B.root B.image.onBootStack sampleCode) (.runs (B.hart [] [])) (.runs m)
  stops : ReflTransGen (UserStep B.root B.image.onBootStack sampleCode) (.runs (B.hart [] []))
    (.stops .panicked panicText)

theorem sample_runs : ∃ B m, SampleRuns B m := by
  obtain ⟨B, -, -, -, himage, hplatform⟩ := sample_userBoot (fun _ => 0) 0x80002064 (by decide) (by decide) (by decide)
  obtain ⟨hi, hstart⟩ := B.starts [] []
  have hpc : (B.task [] []).pc = USER_TEXT_START := rfl
  obtain ⟨t, hrun, hstop⟩ := sampleCode_run B.translation B.frameStatus hpc
  have ho := sampleCode_ok B.translation B.frameStatus (.runs (B.task [] []))
  rw [← hstart] at ho hrun hstop
  obtain ⟨x, hx, he, -⟩ := (B.refines sampleCode).reach hi ho hrun
  obtain ⟨y, hy, he', -⟩ := (B.refines sampleCode).reach hi ho hstop
  cases x with
  | stops why tx => cases he
  | runs m =>
    cases y with
    | runs m' => cases he'
    | stops why tx =>
      cases he'
      exact ⟨B, m, himage, hplatform, hx, hy⟩

/-! ## Runs -/

section Runs

variable (B : UserBoot) {code : ∀ T, UserCode T} {rx tx : List Byte}

end Runs

/-! ## Secrets of the kernel -/

section Secrets

variable {T : Translation} {root root' : Addr} {stack stack' : Addr → Prop} {top top' status : U64} {m₀ m₀' : Mem}
  {m m' : UserHart} {code : ∀ T, UserCode T}

end Secrets

end RvOs
