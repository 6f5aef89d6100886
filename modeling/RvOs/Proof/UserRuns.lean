import RvOs.Framework.Refinement
import RvOs.Proof.TaskCalls
import RvOs.Proof.TrapRuns
import RvOs.Spec.UserRuns

/-!
# The kernel runs a user program

The hart refines the user program that it runs (`user_refines`): an instruction
is one of the program, and a trap, from `supervisor_trap_entry` to `sret`, is
one step of it. So long as the program passes its own memory to the kernel, the
memory of the kernel and the address space stay as they are.
-/

namespace RvOs

open Exec RiscV

/-! ## The frame in memory -/

/-- A word of a frame. -/
theorem in_frame {a x : Addr} {o : Nat} (ho : o + 8 ≤ 288) (hx : (x - (a + BitVec.ofNat 64 o)).toNat < 8) :
    (x - a).toNat < 288 := by
  have := x.isLt; have := a.isLt
  rw [BitVec.toNat_sub, BitVec.toNat_add, BitVec.toNat_ofNat] at hx
  rw [BitVec.toNat_sub]
  omega

theorem frameAt_congr {m m' : Mem} {a : Addr} (h : ∀ x, (x - a).toNat < 288 → m x = m' x) :
    frameAt m a = frameAt m' a := by
  have hword : ∀ o, o + 8 ≤ 288 → m.read64 (a + BitVec.ofNat 64 o) = m'.read64 (a + BitVec.ofNat 64 o) :=
    fun o ho => Mem.read64_congr fun x hx => h x (in_frame ho hx)
  simp (disch := decide) only [frameAt, hword]

/-- The entry stores to its frame only. -/
theorem called_outside (s : State) {x : Addr} (hx : ¬ (x - (trapStack s - 288)).toNat < 288) :
    (called s).mem x = s.mem x := by
  let s₁ := exec (entered s) (.addi .sp .sp (-288))
  have hsp : s₁.get .sp = trapStack s - 288 := by
    rw [BitVec.sub_eq_add_neg]
    refine (State.get_set_self _ _ (by decide)).trans ?_
    rw [entered_get]
    rfl
  have hout : ∀ o : Nat, o + 8 ≤ 288 → ¬ (x - (s₁.get .sp + BitVec.ofNat 64 o)).toNat < 8 := fun o ho hlt =>
    hx (in_frame ho (hsp ▸ hlt))
  have hregs : ∀ p ∈ frameSlots, p.2 + 8 ≤ 288 := by decide
  have hcsrs : ∀ p ∈ csrSlots, p.2 + 8 ≤ 288 := by decide
  obtain ⟨m, he, -⟩ := saves_ok .sp frameSlots s₁ frameSlots_apart (by decide)
  have hsaves := saves_outside .sp frameSlots s₁ fun p hp => hout p.2 (hregs p hp)
  have hvia := storeVia_outside s₁.csr (by decide : Reg.sp ≠ .t3) csrSlots { s₁ with mem := m }
    fun p hp => hout p.2 (hcsrs p hp)
  have hmv : ∀ t : State, (execAll [.mv .a0 .sp] t).mem = t.mem := fun _ => rfl
  have hmem : (called s).mem = (storeVia s₁.csr .t3 .sp csrSlots { s₁ with mem := m }).mem := by
    rw [called, buildFrame_body, execAll_cons, execAll_append, execAll_append, execAll_csrSaves, execAll_saves_csr,
      he, hmv]
  have hentered : (entered s).mem x = s.mem x := by
    rw [entered_eq]
    split <;> rfl
  rw [hmem, hvia, ← hentered]
  rwa [he] at hsaves

/-- The exit stores nothing. -/
theorem returned_mem (t : State) : (returned t).mem = t.mem := by
  have hret : ∀ s : State, (execAll (sTrap (branch s .t1 .returnToUser .returnToSupervisor)).body s).mem = s.mem := by
    intro s
    rw [branch]
    split
    · exact execAll_mem (show ∀ i ∈ returnToUser.body, i.isStore = false by decide) s
    · exact execAll_mem (show ∀ i ∈ returnToSupervisor.body, i.isStore = false by decide) s
  rw [returned, hret]
  exact execAll_mem (show ∀ i ∈ restore.body, i.isStore = false by decide) t

/-! ## The program -/

variable {T : Translation} {stack : Addr → Prop} {stackTop status : U64} {m₀ : Mem} {root : Addr} {m m' : UserHart}
  {code : ∀ T, UserCode T}

theorem UserHart.task_mem {va pa flags : U64} (ht : T va = some (pa, flags)) (hu : hasFlag flags PTE_U = true) :
    (m.task T).mem va = m.mem pa := by
  rw [UserHart.task]
  dsimp only
  rw [ht]
  exact if_pos hu

theorem UserHart.task_other {va : U64} (hu : T.isUser va = false) : (m.task T).mem va = 0 := by
  rw [UserHart.task]
  dsimp only
  cases ht : T va with
  | none => rfl
  | some x =>
    rw [isUser_of_eq ht] at hu
    exact if_neg fun h => absurd (hu.symm.trans h) Bool.false_ne_true

/-- A hart that shows a program is its view. -/
theorem UserHart.task_eq {t : Task} (hreg : ∀ r, m.get r = t.reg r) (hpc : m.pc = t.pc) (hrx : m.rx = t.rx)
    (htx : m.tx = t.tx)
    (huser : ∀ va pa flags, T va = some (pa, flags) → hasFlag flags PTE_U = true → t.mem va = m.mem pa)
    (hother : ∀ va, T.isUser va = false → t.mem va = 0) : m.task T = t := by
  have hmem : (m.task T).mem = t.mem := funext fun va => by
    by_cases hu : T.isUser va = true
    · obtain ⟨pa, flags, ht, hf⟩ := isUser_iff.mp hu
      rw [task_mem ht hf, huser va pa flags ht hf]
    · have hu := eq_false_of_ne_true hu
      rw [task_other hu, hother va hu]
  have hregs : (m.task T).reg = t.reg := funext hreg
  obtain ⟨⟨reg, pc, mem⟩, rx, tx⟩ := t
  rw [UserHart.task, Task.mk.injEq, UserState.mk.injEq]
  exact ⟨⟨hregs, hpc, hmem⟩, hrx, htx⟩

/-- How a trap ends, with the result of a call. -/
def Task.trapResult (T : Translation) (t : Task) (cause : U64) : Fate (U64 × Task) :=
  if cause = 8 then t.call T else .stops .panicked (t.tx ++ panicText)

theorem Task.trap_eq (t : Task) (status cause : U64) :
    t.trap T status cause = (t.trapResult T cause).map fun p => p.2.resume status p.1 := by
  rw [Task.trap, Task.trapResult]
  split <;> rfl

/-- A call changes the memory and the console of the program only. -/
theorem Task.send_regs {total buffer : U64} {n : Nat} {t t' : Task} {a0 : U64}
    (h : t.send T total buffer n = .runs (a0, t')) : t'.reg = t.reg ∧ t'.pc = t.pc := by
  induction n using Nat.strongRecOn generalizing buffer t with
  | ind n ih =>
    rw [Task.send] at h
    split_ifs at h with hn hb hall
    · cases h
      exact ⟨rfl, rfl⟩
    · cases h
      exact ⟨rfl, rfl⟩
    · have hrest := ih (n - min n 256) (by omega) h
      exact hrest

theorem Task.read_regs {fd buffer length : U64} {t t' : Task} {a0 : U64}
    (h : t.read T fd buffer length = .runs (a0, t')) : t'.reg = t.reg ∧ t'.pc = t.pc := by
  rw [Task.read] at h
  dsimp only at h
  by_cases hfd : fd ≠ 0
  · rw [if_pos hfd] at h
    cases h
    exact ⟨rfl, rfl⟩
  by_cases hl : length = 0
  · rw [if_neg hfd, if_pos hl] at h
    cases h
    exact ⟨rfl, rfl⟩
  rw [if_neg hfd, if_neg hl] at h
  cases he : editLine (min length.toNat 256) t.rx [] with
  | none =>
    rw [he] at h
    cases h
  | some r =>
    rw [he] at h
    dsimp only at h
    split_ifs at h
    · cases h
      exact ⟨rfl, rfl⟩
    · cases h
      exact ⟨rfl, rfl⟩

theorem Task.call_regs {t t' : Task} {a0 : U64} (h : t.call T = .runs (a0, t')) : t'.reg = t.reg ∧ t'.pc = t.pc := by
  rw [Task.call, Task.write] at h
  split_ifs at h with hr hw hfd he
  · exact read_regs h
  · cases h
    exact ⟨rfl, rfl⟩
  · exact send_regs h
  · cases h
    exact ⟨rfl, rfl⟩

/-- What the exit leaves in the registers, when the frame has a result in `a0`. -/
theorem returnedReg_resume {t : Task} {s : State} (hr : ∀ r, t.reg r = s.get r) (hs : spp s = 0) (a0 epc : U64)
    (r : Reg) : returnedReg { savedFrame s with a0, epc } r = (t.resume (s.csr .sstatus) a0).reg r := by
  have ht1 : s.csr .sstatus &&& 0x100 = 0 := hs
  cases r <;> simp only [returnedReg, savedFrame, Task.resume, hr, ht1, State.get_zero]

/-! ## A trap -/

/-- The handler of a trap is called in `t`. -/
structure Trapped (m : UserHart) (cause tval : U64) (stackTop status : U64) (t : State) : Prop where
  called : t = called (takeTrap .user m.pc cause tval m.toState)
  a0 : t.get .a0 = stackTop - 288
  frame : frameAt t.mem (stackTop - 288) = savedFrame (takeTrap .user m.pc cause tval m.toState)
  sstatus : t.csr .sstatus = takenStatus .user status
  mem : ∀ x, ¬ (x - (stackTop - 288)).toNat < 288 → t.mem x = m.mem x

/-- A line stored where U-mode may store spares the kernel. -/
theorem UserSpace.spares (hU : UserSpace root stack stackTop T m₀) {m : Mem} (hm : SameKernel T stack m₀ m)
    {own : Addr → Prop} (hown : ∀ pa, own pa → ¬ T.InUserPage PTE_W pa) {buffer : U64} {line : List Byte}
    (hmay : ∀ i < line.length, T.Allows .store (byteAddr buffer i) → T.userMay .store (byteAddr buffer i) = true) :
    Spares root own m buffer line := by
  have ht := hU.translation m hm
  intro n hn hall
  rw [ht] at hall ⊢
  have hrest : ∀ pa, ¬ T.InUserPage PTE_W pa → storedMem T m buffer line n pa = m pa := fun pa hpa =>
    storedMem_rest (fun i hi => hmay i (by omega) (hall i hi)) hpa
  refine ⟨fun a ha => hrest a (hown a ha), ?_⟩
  rw [ht]
  exact hU.translation _ fun pa hpa hs => (hrest pa hpa).trans (hm pa hpa hs)

section Ready

variable (hU : UserSpace root stack stackTop T m₀) (hR : UserReady stack stackTop T m₀ status m)

include hU hR

theorem UserReady.tables : Translation.ofTables m.mem root = T := hU.translation m.mem hR.mem

theorem UserReady.event : m.event root code = (code T).event (m.task T).toUserState := by
  rw [UserHart.event, hR.tables hU]

omit hU in
theorem UserReady.trapped (cause tval : U64) :
    Trapped m cause tval stackTop status (called (takeTrap .user m.pc cause tval m.toState)) := by
  have htop : trapStack (takeTrap .user m.pc cause tval m.toState) = stackTop :=
    (trapStack_takeTrap m.toState).trans hR.sscratch
  obtain ⟨-, ha0, hframe, hcsr⟩ := called_ok (takeTrap .user m.pc cause tval m.toState)
  rw [htop] at ha0 hframe
  refine ⟨rfl, ha0, hframe, ?_, fun x hx => ?_⟩
  · rw [hcsr, entered_csr, if_neg fun h => by cases h.1]
    show takenStatus .user (m.csr .sstatus) = _
    rw [hR.sstatus]
  · exact called_outside _ (htop.symm ▸ hx)

theorem UserReady.calls {t : State} (ht : TrapCalls root code m t) : ∃ cause tval,
    (code T).event (m.task T).toUserState = .trap cause tval ∧ Trapped m cause tval stackTop status t := by
  obtain ⟨-, cause, tval, he, hc⟩ := ht
  rw [supervisorTrap_call _ 0] at hc
  obtain rfl := Option.some.inj hc
  rw [hR.event hU] at he
  exact ⟨cause, tval, he, hR.trapped cause tval⟩

end Ready

section Trap

variable (hU : UserSpace root stack stackTop T m₀) (hR : UserReady stack stackTop T m₀ status m) {t : State}
  {cause tval : U64} (ht : Trapped m cause tval stackTop status t)

include hU hR ht

omit hR in
/-- The frame is on the stack of the kernel. -/
theorem Trapped.mem_eq {x : Addr} (hx : ¬ stack x) : t.mem x = m.mem x := ht.mem x fun h => hx (hU.frame x h)

theorem Trapped.same : SameKernel T stack m₀ t.mem := fun pa hpa hs => by rw [ht.mem_eq hU hs, hR.mem pa hpa hs]

theorem Trapped.tables : Translation.ofTables t.mem root = T := hU.translation t.mem (ht.same hU hR)

omit hR in
theorem Trapped.shows : HartShows T (m.called t) (m.task T) := by
  refine ⟨fun va pa flags hva hu => ?_, fun va hva => UserHart.task_other hva, rfl, rfl⟩
  rw [UserHart.task_mem hva hu]
  exact (ht.mem_eq hU (hU.apart va pa flags hva hu)).symm

theorem Trapped.ends (hS : UserStatus status) (he : (code T).event (m.task T).toUserState = .trap cause tval)
    (ho : TaskOk (code T) (.runs (m.task T))) :
    TrapEnds T (frameAt t.mem (t.get .a0)) (m.called t) ((m.task T).trapResult T cause) ∧
      ∀ pa, ¬ T.InUserPage PTE_W pa → (final (calledHandler root t (m.called t))).mem pa = t.mem pa := by
  have hspp : spp (takeTrap .user m.pc cause tval m.toState) = 0 := (spp_takeTrap m.toState).mpr rfl
  rw [calledHandler, ht.tables hU hR, ht.a0, ht.frame]
  refine handler_task (ht.shows hU) hU.inj hspp ⟨rfl, rfl, rfl, rfl⟩ (fun h8 => ?_) fun h3 => ⟨?_, ?_⟩
  · obtain rfl : cause = 8 := h8
    exact ho tval he
  · show hasFlag (t.csr .sstatus) SSTATUS_SUM = false
    rw [ht.sstatus]
    exact hS.sum
  · obtain rfl : cause = 3 := h3
    exact (code T).ebreak _ tval he

/-- A handler that returns leads back to the program, with the result of its call. -/
theorem Trapped.returns (hS : UserStatus status) (he : (code T).event (m.task T).toUserState = .trap cause tval)
    (ho : TaskOk (code T) (.runs (m.task T))) {f : TrapFrame} {h : Hart} {t' s' : State}
    (hh : calledHandler root t (m.called t) = .ok f h) (hl : HandlerLeaves stack t f h t')
    (hr : run sTrap id 2 .restore t' = some s') :
    let m' : UserHart := { toState := sret s', mode := sretMode s', pc := s'.csr .sepc, rx := h.rx, tx := h.tx }
    (m.task T).next (code T) (takenStatus .user status) = .runs (m'.task T) ∧
      UserReady stack stackTop T m₀ status m' := by
  intro m'
  obtain ⟨hends, hrest⟩ := ht.ends hU hR hS he ho
  have hh' : supervisorTrapHandler T (frameAt t.mem (t.get .a0)) (m.called t) = .ok f h := by
    rw [← hh, calledHandler, ht.tables hU hR]
  generalize hres : (m.task T).trapResult T cause = r at hends
  cases hends with
  | stops hstop =>
    obtain ⟨e, h', herr⟩ := hstop
    rw [hh'] at herr
    cases herr
  | @returns a0 h₁ t₁ hs hok =>
    rw [hh'] at hok
    obtain ⟨rfl, rfl⟩ := EStateM.Result.ok.inj hok
    have hregs : t₁.reg = (m.task T).reg ∧ t₁.pc = (m.task T).pc := by
      rw [Task.trapResult] at hres
      split_ifs at hres
      exact Task.call_regs hres
    obtain rfl := ht.called
    have hret : HandlerReturns (RvOs.called (takeTrap .user m.pc cause tval m.toState)) t' :=
      ⟨hl.sp, by rw [hl.frame]⟩
    rw [supervisorTrap_exit _ 0] at hr
    obtain rfl := Option.some.inj hr
    -- the frame that is restored
    have hsp : t'.get .sp = stackTop - 288 := by
      rw [hl.sp, (called_ok _).1, trapStack_takeTrap m.toState]
      exact congrArg (· - 288) hR.sscratch
    have hframe := hl.frame
    rw [ht.a0, ht.frame] at hframe
    have hmem : ∀ pa, ¬ stack pa → (returned t').mem pa = h.mem pa := fun pa hpa => by
      rw [returned_mem]
      exact hl.mem pa hpa
    have hreg : ∀ r, (returned t').get r = (t₁.resume (takenStatus .user status) a0).reg r := fun r => by
      rw [returned_get, hsp, hframe, ← hR.sstatus]
      exact returnedReg_resume (s := takeTrap .user m.pc cause tval m.toState) (fun r => congrFun hregs.1 r)
        ((spp_takeTrap m.toState).mpr rfl) ..
    have hpc : (returned t').csr .sepc = m.pc + 4 := by
      rw [returned_csr, hsp, hframe]
      rfl
    refine ⟨?_, ?_⟩
    · rw [Task.next, he]
      dsimp only
      rw [Task.trap_eq, hres, Fate.map]
      congr 1
      refine (UserHart.task_eq (m := m') hreg ?_ hs.rx hs.tx (fun va pa flags hva hu => ?_) hs.other).symm
      · exact hpc.trans (congrArg (· + 4) hregs.2.symm)
      · exact (hs.user va pa flags hva hu).trans (hmem pa (hU.apart va pa flags hva hu)).symm
    · refine ⟨sretMode_returned hret, ?_, ?_, fun pa hpa hst => ?_⟩
      · exact (sscratch_returned hret hl.sscratch).trans hR.sscratch
      · show sretStatus ((returned t').csr .sstatus) = status
        rw [returned_status hret]
        show sretStatus (takenStatus .user (m.csr .sstatus)) = status
        rw [hR.sstatus, hS.taken]
      · refine (hmem pa hst).trans ?_
        have hrest := hrest pa hpa
        rw [hh] at hrest
        exact hrest.trans (ht.same hU hR pa hpa hst)

/-- No trap disturbs the kernel. -/
theorem Trapped.spares (he : (code T).event (m.task T).toUserState = .trap cause tval)
    (ho : TaskOk (code T) (.runs (m.task T))) : TrapSpares root stack (frameAt t.mem (t.get .a0)) (m.called t) := by
  rw [ht.a0, ht.frame]
  intro hcall hread line hd
  have h8 : cause = 8 := by
    rw [TrapFrame.isUserEcall, Bool.and_eq_true, decide_eq_true_iff] at hcall
    exact of_decide_eq_true hcall.2
  obtain rfl := h8
  apply hU.spares (ht.same hU hR)
  · intro pa hs hpage
    obtain ⟨va, flags, hva, hu, -⟩ := hpage
    exact hU.apart va pa flags hva hu hs
  · intro i hi hal
    exact ho tval he .store _ (.inr ⟨hread, hd.1, hd.2.1, rfl, line, hd.2.2.2, i, hi, rfl⟩) hal

/-- A trap that stops the hart stops the program. -/
theorem Trapped.stops (hS : UserStatus status) (he : (code T).event (m.task T).toUserState = .trap cause tval)
    (ho : TaskOk (code T) (.runs (m.task T))) {kernel : TrapFrame} {n : Nat} {why : Stop} {h : Hart}
    (hh : runTrap (.ofTables t.mem root) kernel (n + 1) (frameAt t.mem (t.get .a0)) (m.called t) = .error why h) :
    (m.task T).next (code T) (takenStatus .user status) = .stops why h.tx := by
  obtain ⟨hends, -⟩ := ht.ends hU hR hS he ho
  rw [ht.tables hU hR] at hh
  rw [Task.next, he]
  dsimp only
  rw [Task.trap_eq]
  generalize (m.task T).trapResult T cause = r at hends
  cases hends with
  | returns hs hok =>
    simp only [runTrap, hok] at hh
    cases hh
  | stops hstop hrun =>
    obtain ⟨h', hr', rfl⟩ := hrun kernel n
    rw [hr'] at hh
    obtain ⟨rfl, rfl⟩ := EStateM.Result.error.inj hh
    rfl

/-- Some step can be taken. -/
theorem Trapped.progress (hS : UserStatus status) (he : (code T).event (m.task T).toUserState = .trap cause tval)
    (ho : TaskOk (code T) (.runs (m.task T))) : ∃ x, UserStep root stack code (.runs m) x := by
  have hc : TrapCalls root code m t := by
    refine ⟨hR.mode, cause, tval, (hR.event hU).trans he, ?_⟩
    rw [supervisorTrap_call _ 0, ht.called]
  obtain ⟨hends, hrest⟩ := ht.ends hU hR hS he ho
  have hkeep : ∀ a, stack a → (final (calledHandler root t (m.called t))).mem a = t.mem a := fun a ha =>
    hrest a fun ⟨va, flags, hva, hu, _⟩ => hU.apart va a flags hva hu ha
  have htables := ht.tables hU hR
  generalize (m.task T).trapResult T cause = r at hends
  cases hends with
  | stops hstop hrun =>
    obtain ⟨h', hr', -⟩ := hrun (frameAt t.mem (t.get .a0)) 0
    rw [← htables] at hr'
    exact ⟨_, .stops hc hr'⟩
  | @returns a0 h t₁ hs hok =>
    rw [← htables] at hok
    change calledHandler root t (m.called t) = _ at hok
    rw [hok] at hkeep
    -- the frame is written back to the stack
    let a := stackTop - 288
    let f := frameAt t.mem (t.get .a0)
    let mem := (h.mem.write64 (a + BitVec.ofNat 64 72) a0).write64 (a + BitVec.ofNat 64 248) (f.epc + 4)
    have hl : HandlerLeaves stack t { f with a0, epc := f.epc + 4 } h { t with mem } := by
      refine ⟨rfl, rfl, ?_, fun x hx => ?_⟩
      · have hf : f = frameAt h.mem a := by
          show frameAt t.mem (t.get .a0) = _
          rw [ht.a0]
          exact frameAt_congr fun x hx => (hkeep x (hU.frame x hx)).symm
        show frameAt mem (t.get .a0) = _
        rw [ht.a0, frameAt_write, hf]
      · have hout : ∀ o, o + 8 ≤ 288 → ¬ (x - (a + BitVec.ofNat 64 o)).toNat < 8 := fun o ho hlt =>
          hx (hU.frame x (in_frame ho hlt))
        exact (Mem.write64_apply (hout 248 (by decide))).trans (Mem.write64_apply (hout 72 (by decide)))
    exact ⟨_, .returns hc hok hl (supervisorTrap_exit _ 0)⟩

end Trap

/-! ## An instruction -/

theorem Executes.task {u : UserState} (hinj : T.UserInj) (hu : (code T).event (m.task T).toUserState = .next u)
    (h : Executes T m u m') : m'.task T = { m.task T with toUserState := u } := by
  refine UserHart.task_eq h.reg h.pc h.rx h.tx (fun va pa flags hva hf => ?_) fun va hva => ?_
  · show u.mem va = m'.mem pa
    by_cases hw : hasFlag flags PTE_W = true
    · exact (h.user va pa flags hva hf hw).symm
    · have hmay : T.userMay .store va = false := by
        rw [Translation.userMay, hva]
        exact Bool.and_eq_false_imp.mpr fun _ => eq_false_of_ne_true hw
      rw [(code T).stores _ u va hu hmay, UserHart.task_mem hva hf, h.rest]
      -- only this address is at `pa`
      rintro ⟨va', flags', hva', hf', hw'⟩
      obtain rfl := hinj _ _ _ _ _ hva hf hva' hf'
      rw [hva] at hva'
      cases hva'
      exact hw hw'
  · have hmay : T.userMay .store va = false := by
      refine eq_false_of_ne_true fun hmay => ?_
      obtain ⟨pa, flags, ht, hf, -⟩ := userMay_iff.mp hmay
      rw [isUser_iff.mpr ⟨pa, flags, ht, hf⟩] at hva
      cases hva
    exact ((code T).stores _ u va hu hmay).trans (UserHart.task_other hva)

theorem Executes.ready {u : UserState} (hR : UserReady stack stackTop T m₀ status m) (h : Executes T m u m') :
    UserReady stack stackTop T m₀ status m' :=
  ⟨h.mode, by rw [h.csr, hR.sscratch], by rw [h.csr, hR.sstatus], fun pa hpa hs => by
    rw [h.rest pa hpa, hR.mem pa hpa hs]⟩

theorem UserReady.executes {u : UserState} (hR : UserReady stack stackTop T m₀ status m) (hinj : T.UserInj)
    (hu : (code T).event (m.task T).toUserState = .next u) : ∃ m', Executes T m u m' := by
  classical
  -- each byte that U-mode may write is at one address
  let mem : Mem := fun pa => if h : T.InUserPage PTE_W pa then u.mem h.choose else m.mem pa
  refine ⟨{ m with gpr := u.reg, mem, pc := u.pc }, hR.mode, rfl, fun r => ?_, rfl, fun va pa flags hva hf hw => ?_,
    fun pa hpa => dif_neg hpa, rfl, rfl⟩
  · show (if r = .zero then 0 else u.reg r) = u.reg r
    split
    · rename_i hr
      rw [hr, (code T).zero _ u hu]
    · rfl
  · have hpa : T.InUserPage PTE_W pa := ⟨va, flags, hva, hf, hw⟩
    obtain ⟨flags', hva', hf', -⟩ := hpa.choose_spec
    refine (dif_pos hpa).trans (congrArg u.mem ?_)
    exact hinj _ _ _ _ _ hva' hf' hva hf

/-! ## Runs -/

theorem taskStep_unique {code : UserCode T} {x a b : Fate Task} (ha : TaskStep code status x a)
    (hb : TaskStep code status x b) : a = b := by
  cases ha
  cases hb
  rfl

/-- The steps of a run are those of its program. -/
theorem user_refines (hU : UserSpace root stack stackTop T m₀) (hS : UserStatus status) (code : ∀ T, UserCode T) :
    Refines (UserStep root stack code) (TaskStep (code T) (takenStatus .user status)) (Fate.map (UserHart.task T))
      (UserInv stack stackTop T m₀ status) (TaskOk (code T)) := by
  have hforward : ∀ x x', UserInv stack stackTop T m₀ status x → TaskOk (code T) (x.map (UserHart.task T)) →
      UserStep root stack code x x' →
      TaskStep (code T) (takenStatus .user status) (x.map (UserHart.task T)) (x'.map (UserHart.task T)) ∧
        UserInv stack stackTop T m₀ status x' := by
    intro x x' hx ho hstep
    cases hstep with
    | @instruction m m' u hm hu h =>
      have hR : UserReady stack stackTop T m₀ status m := hx
      rw [hR.event hU] at hu
      rw [hR.tables hU] at h
      refine ⟨?_, h.ready hR⟩
      have hnext : TaskStep (code T) (takenStatus .user status) (.runs (m.task T)) _ := .next (m.task T)
      rw [Task.next, hu] at hnext
      rw [Fate.map, Fate.map, h.task hU.inj hu]
      exact hnext
    | @returns m t t' s' f h ht hh hl hr =>
      have hR : UserReady stack stackTop T m₀ status m := hx
      obtain ⟨cause, tval, he, ht⟩ := hR.calls hU ht
      obtain ⟨hnext, hR'⟩ := ht.returns hU hR hS he ho hh hl hr
      exact ⟨by rw [Fate.map, Fate.map, ← hnext]; exact .next _, hR'⟩
    | @stops m t kernel n why h ht hh =>
      have hR : UserReady stack stackTop T m₀ status m := hx
      obtain ⟨cause, tval, he, ht⟩ := hR.calls hU ht
      have hnext := ht.stops hU hR hS he ho hh
      exact ⟨by rw [Fate.map, Fate.map, ← hnext]; exact .next _, trivial⟩
    | @wild m t x ht hh =>
      have hR : UserReady stack stackTop T m₀ status m := hx
      obtain ⟨cause, tval, he, ht⟩ := hR.calls hU ht
      exact absurd (ht.spares hU hR he ho) hh
  refine ⟨hforward, fun x a hx ho hspec => ?_⟩
  cases x with
  | stops why tx => cases hspec
  | runs m =>
    have hR : UserReady stack stackTop T m₀ status m := hx
    obtain ⟨x', hx'⟩ : ∃ x', UserStep root stack code (.runs m) x' := by
      cases he : (code T).event (m.task T).toUserState with
      | next u =>
        obtain ⟨m', hm'⟩ := hR.executes hU.inj he
        rw [← hR.tables hU] at hm'
        exact ⟨_, .instruction hR.mode ((hR.event hU).trans he) hm'⟩
      | trap cause tval => exact (hR.trapped cause tval).progress hU hR hS he ho
    refine ⟨x', hx', ?_⟩
    exact taskStep_unique (hforward _ _ hx ho hx').1 hspec

end RvOs
