import RvOs.Spec.TrapPath

/-!
# The supervisor trap path keeps registers

What `supervisor_trap_entry` saves (`supervisorTrap_call`) and what its exit
loads (`supervisorTrap_exit`), for every state at the trap. `t0` and `t1` are
scratch before they are saved, and `t2` before it is saved and after it is
loaded, so these three do not survive.
-/

namespace RvOs

open RiscV

/-! ## Code as lists of stores and loads -/

def frameSlots : List (Reg × Nat) := [
  (.ra, 0), (.t2, 8), (.gp, 16), (.tp, 24), (.t0, 32), (.t1, 40), (.t2, 48), (.s0, 56), (.s1, 64),
  (.a0, 72), (.a1, 80), (.a2, 88), (.a3, 96), (.a4, 104), (.a5, 112), (.a6, 120), (.a7, 128),
  (.s2, 136), (.s3, 144), (.s4, 152), (.s5, 160), (.s6, 168), (.s7, 176), (.s8, 184), (.s9, 192),
  (.s10, 200), (.s11, 208), (.t3, 216), (.t4, 224), (.t5, 232), (.t6, 240)]

def csrSlots : List (Csr × Nat) := [(.sepc, 248), (.sstatus, 256), (.scause, 264), (.stval, 272)]

def restoreSlots : List (Reg × Nat) := (.ra, 0) :: frameSlots.drop 2

def restoredCsrs : List (Csr × Nat) := [(.sepc, 248), (.sstatus, 256)]

theorem buildFrame_body : buildFrame.body =
    .addi .sp .sp (-288) :: (saves .sp frameSlots ++ (csrSaves .t3 .sp csrSlots ++ [.mv .a0 .sp])) := rfl

theorem restore_body : restore.body = csrLoads .t0 .sp restoredCsrs ++ ([.ld .t0 256 .sp, .andi .t1 .t0 0x100] ++
    (loads .sp restoreSlots ++ [.ld .t2 8 .sp, .addi .sp .sp 288, .andi .t1 .t0 0x100])) := rfl

/-! ## Entry -/

/-- SPP of the status at the trap: whether it came from the supervisor. -/
def spp (s : State) : Word := s.csr .sstatus &&& 0x100

/-- The stack pointer that `build_frame` starts from. -/
def trapStack (s : State) : Word := if spp s = 0 then s.csr .sscratch else s.get .sp

/-- The state at `build_frame`. -/
def entered (s : State) : State :=
  let s := execAll supervisorTrapEntry.body s
  execAll (sTrap (branch s .t1 .fromUser .fromSupervisor)).body s

/-- The branch that the entry takes. -/
theorem entry_branch (s : State) : branch (execAll supervisorTrapEntry.body s) .t1 TrapLabel.fromUser .fromSupervisor =
    if spp s = 0 then .fromUser else .fromSupervisor := by
  have h : (execAll supervisorTrapEntry.body s).get .t1 = spp s := by
    simp only [supervisorTrapEntry, execAll_cons, execAll_nil, exec, State.get_set, reduceCtorEq, ite_false, ite_true]
    rfl
  rw [branch, h]

theorem entered_eq (s : State) : entered s = execAll (if spp s = 0 then fromUser else fromSupervisor).body
    ((s.set .t0 (s.csr .sstatus)).set .t1 (spp s)) := by
  rw [entered, entry_branch]
  by_cases hu : spp s = 0
  · rw [if_pos hu, if_pos hu]
    rfl
  · rw [if_neg hu, if_neg hu]
    rfl

theorem entered_get (s : State) (r : Reg) : (entered s).get r =
    match r with
    | .sp => trapStack s
    | .t0 => s.csr .sstatus
    | .t1 => spp s
    | .t2 => s.get .sp
    | r => s.get r := by
  rw [entered_eq, trapStack]
  by_cases hu : spp s = 0
  · rw [if_pos hu, if_pos hu]
    cases r <;> simp [fromUser, execAll_cons, execAll_nil, exec, State.get_set, State.setCsr_csr]
  · rw [if_neg hu, if_neg hu]
    cases r <;> simp [fromSupervisor, execAll_cons, execAll_nil, exec, State.get_set]

theorem entered_csr (s : State) (c : Csr) : (entered s).csr c =
    if c = .sscratch ∧ spp s = 0 then s.get .sp else s.csr c := by
  rw [entered_eq]
  by_cases hu : spp s = 0
  · rw [if_pos hu]
    simp [fromUser, execAll_cons, execAll_nil, exec, State.get_set, State.setCsr_csr, hu]
  · rw [if_neg hu, if_neg fun h => hu h.2]
    rfl

/-! ## The frame -/

/-- What the handler finds in the frame. -/
def savedFrame (s : State) : TrapFrame :=
  { ra := s.get .ra, sp := s.get .sp, gp := s.get .gp, tp := s.get .tp
    t0 := s.csr .sstatus, t1 := spp s, t2 := s.get .sp, s0 := s.get .s0, s1 := s.get .s1
    a0 := s.get .a0, a1 := s.get .a1, a2 := s.get .a2, a3 := s.get .a3
    a4 := s.get .a4, a5 := s.get .a5, a6 := s.get .a6, a7 := s.get .a7
    s2 := s.get .s2, s3 := s.get .s3, s4 := s.get .s4, s5 := s.get .s5, s6 := s.get .s6
    s7 := s.get .s7, s8 := s.get .s8, s9 := s.get .s9, s10 := s.get .s10, s11 := s.get .s11
    t3 := s.get .t3, t4 := s.get .t4, t5 := s.get .t5, t6 := s.get .t6
    epc := s.csr .sepc, status := s.csr .sstatus, cause := s.csr .scause, tval := s.csr .stval }

theorem frameSlots_apart : frameSlots.Pairwise fun p q => Apart p.2 q.2 := by decide

theorem csrSlots_apart : csrSlots.Pairwise fun p q => Apart p.2 q.2 := by decide

theorem frame_csr_apart : ∀ p ∈ frameSlots, ∀ q ∈ csrSlots, Apart p.2 q.2 := by decide

/-- The state `build_frame` calls the handler in. -/
def called (s : State) : State := execAll buildFrame.body (entered s)

/-- The frame is at the address the handler gets. -/
theorem called_ok (s : State) : (called s).get .sp = trapStack s - 288 ∧ (called s).get .a0 = trapStack s - 288 ∧
    frameAt (called s).mem (trapStack s - 288) = savedFrame s ∧ (called s).csr = (entered s).csr := by
  let s₁ := exec (entered s) (.addi .sp .sp (-288))
  have hsp : s₁.get .sp = trapStack s - 288 := by
    rw [BitVec.sub_eq_add_neg]
    refine (State.get_set_self _ _ (by decide)).trans ?_
    rw [entered_get]
    rfl
  have hget (r : Reg) (hr : r ≠ .sp) : s₁.get r = (entered s).get r := State.get_set_of_ne _ _ hr
  obtain ⟨m, v, he, hreg, hval⟩ := saves_storeVia_ok s₁.csr (by decide : Reg.t3 ≠ .zero) (by decide : Reg.sp ≠ .t3)
    frameSlots_apart csrSlots_apart frame_csr_apart (by decide) (by decide) s₁
  rw [hsp] at hreg hval
  let t : State := { s₁.set .t3 v with mem := m }
  have ht : called s = t.set .a0 (t.get .sp) := by
    rw [called, buildFrame_body, execAll_cons, execAll_append, execAll_append, execAll_csrSaves, execAll_saves_csr, he]
    rfl
  have htsp : t.get .sp = trapStack s - 288 := by
    rw [State.mem_get, State.get_set_of_ne _ _ (by decide), hsp]
  have hsp' : (called s).get .sp = trapStack s - 288 := by
    rw [ht, State.get_set_of_ne _ _ (by decide), htsp]
  refine ⟨hsp', ?_, ?_, ?_⟩
  · rw [ht, State.get_set_self _ _ (by decide), htsp]
  · have hm : (called s).mem = m := by
      rw [ht]
      rfl
    simp only [frameSlots, csrSlots, List.forall_mem_cons] at hreg hval
    have hcsr (c : Csr) : s₁.csr c = (entered s).csr c := rfl
    simp only [frameAt, savedFrame, hm, hreg, hval, hget, hcsr, entered_get, entered_csr, ne_eq, reduceCtorEq,
      not_false_eq_true, false_and, ite_false]
  · rw [ht]
    rfl

/-! ## Exit -/

/-- The registers at `sret`, from the frame the handler leaves. -/
def returnedReg (f : TrapFrame) : Reg → Word
  | .zero => 0
  | .ra => f.ra | .sp => f.sp | .gp => f.gp | .tp => f.tp
  -- scratch registers of the exit
  | .t0 => f.t0 | .t1 => f.t0 &&& 0x100 | .t2 => f.sp
  | .s0 => f.s0 | .s1 => f.s1
  | .a0 => f.a0 | .a1 => f.a1 | .a2 => f.a2 | .a3 => f.a3
  | .a4 => f.a4 | .a5 => f.a5 | .a6 => f.a6 | .a7 => f.a7
  | .s2 => f.s2 | .s3 => f.s3 | .s4 => f.s4 | .s5 => f.s5 | .s6 => f.s6
  | .s7 => f.s7 | .s8 => f.s8 | .s9 => f.s9 | .s10 => f.s10 | .s11 => f.s11
  | .t3 => f.t3 | .t4 => f.t4 | .t5 => f.t5 | .t6 => f.t6

theorem restore_ok (s : State) : ∃ v : State, execAll restore.body s = v ∧ v.get .sp = s.get .sp + 288 ∧
    (∀ r, r ≠ .sp → v.get r = returnedReg (frameAt s.mem (s.get .sp)) r) ∧
    ∀ c, v.csr c =
      match c with
      | .sepc => (frameAt s.mem (s.get .sp)).epc
      | .sstatus => (frameAt s.mem (s.get .sp)).status
      | c => s.csr c := by
  obtain ⟨k, x, hk, hkin, hkout⟩ := csrLoads_ok (by decide : Reg.t0 ≠ .zero) (by decide : Reg.sp ≠ .t0)
    restoredCsrs s (by decide)
  let w : State := { s.set .t0 x with csr := k }
  obtain ⟨y, z, hu⟩ : ∃ y z, execAll [.ld .t0 256 .sp, .andi .t1 .t0 0x100] w = (w.set .t0 y).set .t1 z :=
    ⟨_, _, rfl⟩
  let u : State := (w.set .t0 y).set .t1 z
  have hsp : u.get .sp = s.get .sp := by
    rw [State.get_set_of_ne _ _ (by decide), State.get_set_of_ne _ _ (by decide)]
    exact State.get_set_of_ne s x (by decide : Reg.sp ≠ .t0)
  obtain ⟨g, he, hin, hout⟩ := loads_ok .sp restoreSlots u (by decide) (by decide) (by decide)
  rw [hsp] at hin
  have hg : g .sp = s.get .sp := by
    rw [hout _ (by decide), ← hsp]
    rfl
  let v : State := { u with gpr := g }
  have hv : execAll restore.body s = ((v.set .t2 (v.mem.read64 (g .sp + 8))).set .sp (g .sp + 288)).set .t1
      (g .t0 &&& 0x100) := by
    rw [restore_body, execAll_append, hk, execAll_append, hu, execAll_append, he]
    rfl
  have hvg (r : Reg) (h : r ≠ .zero) : v.get r = g r := if_neg h
  have hvm : v.mem = s.mem := rfl
  have hum : u.mem = s.mem := rfl
  simp only [restoreSlots, frameSlots, List.drop_succ_cons, List.drop_zero, List.forall_mem_cons] at hin
  simp only [restoredCsrs, List.forall_mem_cons] at hkin
  refine ⟨_, hv, ?_, fun r hr => ?_, fun c => ?_⟩
  · rw [State.get_set_of_ne _ _ (by decide), State.get_set_self _ _ (by decide), hg]
  · cases r <;> simp [State.get_set, returnedReg, frameAt, hin, hvg, hg, hvm, hum] at hr ⊢
  · refine Eq.trans (b := k c) rfl ?_
    cases c with
    | sepc => exact hkin.1
    | sstatus => exact hkin.2.1
    | scause | stval | sscratch => exact hkout _ (by decide)

/-- The state at `sret`, from the one the handler returns in. -/
def returned (t : State) : State :=
  let s := execAll restore.body t
  execAll (sTrap (branch s .t1 .returnToUser .returnToSupervisor)).body s

theorem returned_get (t : State) (r : Reg) : (returned t).get r = returnedReg (frameAt t.mem (t.get .sp)) r := by
  obtain ⟨v, hv, -, hreg, -⟩ := restore_ok t
  rw [returned, hv]
  -- both blocks that end in `sret` change `sp` only, to `t2`
  have hret : (execAll (sTrap (branch v .t1 .returnToUser .returnToSupervisor)).body v).get r =
      if r = .sp then v.get .t2 else v.get r := by
    rw [branch]
    by_cases hr : r = .sp
    · subst hr
      split <;> rfl
    · rw [if_neg hr]
      split
      · exact State.get_set_of_ne _ _ hr
      · exact State.get_set_of_ne _ _ hr
  rw [hret]
  split
  · subst r
    exact hreg .t2 (by decide)
  · exact hreg r ‹_›

theorem returned_csr (t : State) (c : Csr) : (returned t).csr c =
    match c with
    | .sepc => (frameAt t.mem (t.get .sp)).epc
    | .sstatus => (frameAt t.mem (t.get .sp)).status
    | .sscratch => if (frameAt t.mem (t.get .sp)).t0 &&& 0x100 = 0 then t.get .sp + 288 else t.csr .sscratch
    | c => t.csr c := by
  obtain ⟨v, hv, hsp, hreg, hcsr⟩ := restore_ok t
  rw [returned, hv, branch, hreg .t1 (by decide), returnedReg]
  split
  · cases c <;> simp [sTrap, returnToUser, execAll_cons, execAll_nil, exec, State.setCsr_csr, hcsr, hsp]
  · refine Eq.trans (b := v.csr c) rfl ?_
    rw [hcsr]
    cases c <;> rfl

/-! ## The whole path -/

theorem entry_exit (s : State) :
    (sTrap (branch (execAll supervisorTrapEntry.body s) .t1 .fromUser .fromSupervisor)).exit = .goto .buildFrame := by
  rw [branch]
  split <;> rfl

theorem return_exit (s : State) : (sTrap (branch s .t1 .returnToUser .returnToSupervisor)).exit = .sret := by
  rw [branch]
  split <;> rfl

theorem supervisorTrap_call (s : State) (n : Nat) : runToCall sTrap (n + 3) .supervisorTrapEntry s =
    some (called s) := by
  rw [runToCall_beqz s _ rfl]
  exact (runToCall_goto _ _ (entry_exit s)).trans (runToCall_call _ _ rfl)

theorem supervisorTrap_run (callee : State → State) (s : State) (n : Nat) :
    run sTrap callee (n + 5) .supervisorTrapEntry s = some (returned (callee (called s))) := by
  rw [run_beqz s _ rfl]
  refine (run_goto _ _ (entry_exit s)).trans ?_
  rw [run_call _ _ rfl, run_beqz _ _ rfl]
  exact run_sret _ _ (return_exit _)

/-- Registers after the trap, when the frame is handled. -/
theorem returned_handled {s t : State} (h : Handled (called s) t) {r : Reg} (hr : r ≠ .a0) :
    (returned t).get r = returnedReg (savedFrame s) r := by
  obtain ⟨hsp, ha0, hframe, -⟩ := called_ok s
  have hf := h.frame.frame
  rw [ha0, hframe] at hf
  rw [returned_get, h.sp, hsp, hf]
  cases r <;> simp [returnedReg] at hr ⊢

theorem returned_a0 {s t : State} (h : Handled (called s) t) :
    (returned t).get .a0 = (frameAt t.mem ((called s).get .a0)).a0 := by
  obtain ⟨hsp, ha0, -⟩ := called_ok s
  rw [returned_get, h.sp, hsp, ha0]
  rfl

/-- All registers but the scratch registers are back. -/
theorem returnedReg_saved (s : State) {r : Reg} (h0 : r ≠ .t0) (h1 : r ≠ .t1) (h2 : r ≠ .t2) :
    returnedReg (savedFrame s) r = s.get r := by
  cases r <;> simp [returnedReg, savedFrame] at h0 h1 h2 ⊢

/-- Stores to `a0` and `epc` of a frame. -/
theorem frameAt_write (m : Mem) (a : Addr) (x y : U64) :
    frameAt ((m.write64 (a + BitVec.ofNat 64 72) x).write64 (a + BitVec.ofNat 64 248) y) a =
      { frameAt m a with a0 := x, epc := y } := by
  have ha0 : ((m.write64 (a + BitVec.ofNat 64 72) x).write64 (a + BitVec.ofNat 64 248) y).read64
      (a + BitVec.ofNat 64 72) = x := by
    rw [Mem.read64_write64_sep (sep_of_apart a (by decide) (by decide) (by decide)), Mem.read64_write64_self]
  have hread (o : Nat) (h72 : Apart o 72) (h248 : Apart o 248) (ho : o < 2 ^ 63) :
      ((m.write64 (a + BitVec.ofNat 64 72) x).write64 (a + BitVec.ofNat 64 248) y).read64 (a + BitVec.ofNat 64 o) =
        m.read64 (a + BitVec.ofNat 64 o) := by
    rw [Mem.read64_write64_sep (sep_of_apart a h248 ho (by decide)),
      Mem.read64_write64_sep (sep_of_apart a h72 ho (by decide))]
  simp (disch := decide) only [frameAt, ha0, hread, Mem.read64_write64_self]

theorem onFrame_handled {f : TrapFrame → TrapFrame} (t : State)
    (h : FrameHandled (frameAt t.mem (t.get .a0)) (f (frameAt t.mem (t.get .a0)))) : Handled t (onFrame f t) := by
  have hf : frameAt (onFrame f t).mem (t.get .a0) = f (frameAt t.mem (t.get .a0)) := by
    rw [onFrame, frameAt_write]
    exact h.frame.symm
  refine ⟨rfl, ?_⟩
  rw [hf]
  exact h

/-- The trap path is transparent exactly when the scratch registers already hold
what it leaves in them. -/
theorem supervisorTrap_transparent (s : State) (callee : State → State)
    (h : ∀ t, runToCall sTrap 3 .supervisorTrapEntry s = some t → Handled t (callee t)) :
    ∃ t s', runToCall sTrap 3 .supervisorTrapEntry s = some t ∧
      run sTrap callee 5 .supervisorTrapEntry s = some s' ∧
      (Transparent s t (callee t) s' ↔ s.get .t0 = s.csr .sstatus ∧
        s.get .t1 = s.csr .sstatus &&& SSTATUS_SPP ∧ s.get .t2 = s.get .sp) := by
  have hc := supervisorTrap_call s 0
  have hh := h _ hc
  have ht0 : (returned (callee (called s))).get .t0 = s.csr .sstatus := returned_handled hh (by decide)
  have ht1 : (returned (callee (called s))).get .t1 = s.csr .sstatus &&& SSTATUS_SPP :=
    returned_handled hh (by decide)
  have ht2 : (returned (callee (called s))).get .t2 = s.get .sp := returned_handled hh (by decide)
  refine ⟨called s, returned (callee (called s)), hc, supervisorTrap_run callee s 0, fun ht => ?_, fun hs => ?_⟩
  · exact ⟨(ht.reg .t0 (by decide)).symm.trans ht0, (ht.reg .t1 (by decide)).symm.trans ht1,
      (ht.reg .t2 (by decide)).symm.trans ht2⟩
  · refine ⟨fun r hr => ?_, fun _ => returned_a0 hh, fun hu => ?_⟩
    · by_cases h0 : r = .t0
      · rw [h0, ht0, hs.1]
      by_cases h1 : r = .t1
      · rw [h1, ht1, hs.2.1]
      by_cases h2 : r = .t2
      · rw [h2, ht2, hs.2.2]
      rw [returned_handled hh hr, returnedReg_saved s h0 h1 h2]
    · obtain ⟨-, ha0, hframe, -⟩ := called_ok s
      rw [returned_a0 hh, hh.frame.a0 hu, ha0, hframe]
      rfl

/-- What `advance_trap` does to the frame of a breakpoint that is not compressed. -/
def skipEbreak (f : TrapFrame) : TrapFrame := { f with epc := f.epc + 4 }

theorem skipEbreak_handled (f : TrapFrame) : FrameHandled f (skipEbreak f) := ⟨rfl, fun _ => rfl⟩

/-- A U-mode breakpoint, with 1 in every register. -/
def userEbreak : State :=
  { gpr := fun _ => 1
    csr := fun c => if c = .scause then 3 else if c = .sscratch then 0x80010000 else 0
    mem := fun _ => 0 }

/-- A U-mode breakpoint in a program that has 0 in `t0` and `t1`, and its stack pointer in `t2`. -/
def quietEbreak : State := (userEbreak.set .t0 0).set .t1 0

theorem supervisorTrap_transparent_quiet : ∃ t s', runToCall sTrap 3 .supervisorTrapEntry quietEbreak = some t ∧
    run sTrap (onFrame skipEbreak) 5 .supervisorTrapEntry quietEbreak = some s' ∧
    Transparent quietEbreak t (onFrame skipEbreak t) s' := by
  obtain ⟨t, s', ht, hs', h⟩ := supervisorTrap_transparent quietEbreak (onFrame skipEbreak)
    fun t _ => onFrame_handled t (skipEbreak_handled _)
  exact ⟨t, s', ht, hs', h.mpr ⟨by decide, by decide, by decide⟩⟩

/-- A breakpoint that is not transparent: `t0` comes back as `sstatus`. -/
theorem supervisorTrap_clobbers : ∃ t s', runToCall sTrap 3 .supervisorTrapEntry userEbreak = some t ∧
    Handled t (onFrame skipEbreak t) ∧ run sTrap (onFrame skipEbreak) 5 .supervisorTrapEntry userEbreak = some s' ∧
    ¬ Transparent userEbreak t (onFrame skipEbreak t) s' := by
  have hh := onFrame_handled (called userEbreak) (skipEbreak_handled _)
  refine ⟨_, _, supervisorTrap_call _ 0, hh, supervisorTrap_run _ _ 0, fun h => ?_⟩
  have h0 := (returned_handled hh (by decide : Reg.t0 ≠ .a0)).symm.trans (h.reg .t0 (by decide))
  exact absurd h0 (by decide)

end RvOs
