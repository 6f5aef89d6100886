import RvOs.Proof.SupervisorTrap
import RvOs.Spec.MachineTrap

/-!
# The machine trap path keeps registers

The entry saves what was interrupted (`machineTrapEntry_ok`), and the exit loads
it again (`machineTrapExit_ok`), but for `t1`, through which `sp` is loaded after
the other registers.
-/

namespace RvOs

open RiscV

/-! ## Entry -/

def machineCsrSlots : List (MCsr × Nat) :=
  [(.mscratch, 8), (.mepc, 248), (.mstatus, 256), (.mcause, 264), (.mtval, 272)]

theorem machineTrapEntry_eq : machineTrapEntry = .csrrw .sp .mscratch .sp :: .base (.addi .sp .sp (-288)) ::
    ((saves .sp restoreSlots).map .base ++ (csrSavesM .t0 .sp machineCsrSlots ++ [.base (.mv .a0 .sp)])) := rfl

theorem machineCsrSlots_apart : machineCsrSlots.Pairwise fun p q => Apart p.2 q.2 := by decide

theorem restoreSlots_apart : restoreSlots.Pairwise fun p q => Apart p.2 q.2 := by decide

theorem restore_machineCsr_apart : ∀ p ∈ restoreSlots, ∀ q ∈ machineCsrSlots, Apart p.2 q.2 := by decide

/-- Every register but `zero` has a slot, -/
theorem reg_slot (r : Reg) : r = .zero ∨ ∃ o, (r, o) ∈ (.sp, 8) :: restoreSlots := by
  cases r <;> simp [restoreSlots, frameSlots]

/-- which is where the frame has it. -/
theorem frameAt_slot (m : Mem) (a : Addr) : ∀ p ∈ (.sp, 8) :: restoreSlots,
    (frameAt m a).reg p.1 = m.read64 (a + BitVec.ofNat 64 p.2) := by
  simp [restoreSlots, frameSlots, TrapFrame.reg, frameAt]

/-- The handler is called with a frame of what was interrupted. -/
theorem machineTrapEntry_ok (s : MState) :
    (execAllM machineTrapEntry s).get .sp = s.mcsr .mscratch - 288 ∧
      (execAllM machineTrapEntry s).get .a0 = s.mcsr .mscratch - 288 ∧
      Interrupted s (frameAt (execAllM machineTrapEntry s).mem (s.mcsr .mscratch - 288)) := by
  obtain ⟨s₁, hs₁⟩ : ∃ s₁, s₁ = (s.toState.set .sp (s.mcsr .mscratch)).set .sp (s.mcsr .mscratch - 288) := ⟨_, rfl⟩
  obtain ⟨k, hk⟩ : ∃ k, k = Function.update s.mcsr .mscratch (s.get .sp) := ⟨_, rfl⟩
  have hsp : s₁.get .sp = s.mcsr .mscratch - 288 := by
    rw [hs₁, State.get_set_self _ _ (by decide)]
  have hget (r : Reg) (hr : r ≠ .sp) : s₁.get r = s.get r := by
    rw [hs₁, State.get_set_of_ne _ _ hr, State.get_set_of_ne _ _ hr]
  obtain ⟨m, v, he, hreg, hval⟩ := saves_storeVia_ok k (by decide : Reg.t0 ≠ .zero) (by decide : Reg.sp ≠ .t0)
    restoreSlots_apart machineCsrSlots_apart restore_machineCsr_apart (by decide) (by decide) s₁
  rw [hsp] at hreg hval
  have hstart : MInstr.exec (MInstr.exec s (.csrrw .sp .mscratch .sp)) (.base (.addi .sp .sp (-288))) = ⟨s₁, k⟩ := by
    rw [hs₁, hk, BitVec.sub_eq_add_neg]
    rfl
  obtain ⟨t, htdef⟩ : ∃ t : State, t = { s₁.set .t0 v with mem := m } := ⟨_, rfl⟩
  have ht : execAllM machineTrapEntry s = ⟨t.set .a0 (t.get .sp), k⟩ := by
    rw [machineTrapEntry_eq, execAllM_cons, execAllM_cons, hstart, execAllM_append, execAllM_base, execAllM_append,
      execAllM_csrSavesM, he, htdef]
    rfl
  have htsp : t.get .sp = s.mcsr .mscratch - 288 := by
    rw [htdef, State.mem_get, State.get_set_of_ne _ _ (by decide), hsp]
  have hm : (execAllM machineTrapEntry s).mem = m := by
    rw [ht, htdef]
    rfl
  have hkeep (c : MCsr) (hc : c ≠ .mscratch) : k c = s.mcsr c := by
    rw [hk, Function.update_of_ne hc]
  simp only [machineCsrSlots, List.forall_mem_cons] at hval
  obtain ⟨hscratch, hepc, hstatus, hcause, htval, -⟩ := hval
  rw [hm, ht]
  refine ⟨?_, ?_, fun r => ?_, hepc.trans (hkeep _ (by decide)), hstatus.trans (hkeep _ (by decide)),
    hcause.trans (hkeep _ (by decide)), htval.trans (hkeep _ (by decide))⟩
  · exact (State.get_set_of_ne _ _ (by decide)).trans htsp
  · exact (State.get_set_self _ _ (by decide)).trans htsp
  · obtain rfl | ⟨o, ho⟩ := reg_slot r
    · rfl
    rw [frameAt_slot _ _ _ ho]
    obtain h | h := List.mem_cons.mp ho
    · obtain ⟨rfl, rfl⟩ := Prod.mk.inj h
      rw [hscratch, hk, Function.update_self]
    · rw [hreg _ h, hget]
      rintro rfl
      revert h
      simp [restoreSlots, frameSlots]

/-! ## Exit -/

/-- The CSRs are loaded first, -/
def loadCsrs : List MInstr :=
  [.base (.ld .t0 248 .sp), .csrw .mepc .t0, .base (.ld .t0 256 .sp), .csrw .mstatus .t0]

/-- and `sp` last, through `t1`. -/
def loadSp : List MInstr := [.base (.ld .t1 8 .sp), .base (.addi .sp .sp 288), .csrw .mscratch .sp, .base (.mv .sp .t1)]

theorem machineTrapExit_eq :
    machineTrapExit = loadCsrs ++ ((loads .sp restoreSlots).map .base ++ loadSp) := rfl

theorem loadCsrs_ok (s : MState) : (execAllM loadCsrs s).get .sp = s.get .sp ∧ (execAllM loadCsrs s).mem = s.mem ∧
    (execAllM loadCsrs s).mcsr .mepc = (frameAt s.mem (s.get .sp)).epc ∧
    (execAllM loadCsrs s).mcsr .mstatus = (frameAt s.mem (s.get .sp)).status := by
  refine ⟨?_, rfl, ?_, ?_⟩
  · exact execAllM_get (by decide) s
  · simp [loadCsrs, execAllM, MInstr.exec, MInstr.csrw, RiscV.exec, State.get_set, frameAt]
  · simp [loadCsrs, execAllM, MInstr.exec, MInstr.csrw, RiscV.exec, State.get_set, frameAt]
    rfl

theorem loadSp_ok (s : MState) :
    (∀ r, (execAllM loadSp s).get r =
      if r = .t1 ∨ r = .sp then s.mem.read64 (s.get .sp + BitVec.ofNat 64 8) else s.get r) ∧
    (execAllM loadSp s).mcsr = Function.update s.mcsr .mscratch (s.get .sp + 288) := by
  refine ⟨fun r => ?_, ?_⟩
  · cases r <;> simp [loadSp, execAllM, MInstr.exec, MInstr.csrw, RiscV.exec, State.get_set]
  · simp [loadSp, execAllM, MInstr.exec, MInstr.csrw, RiscV.exec, State.get_set]

/-- What the exit leaves, from the frame at the stack pointer. -/
theorem machineTrapExit_ok (s : MState) :
    (∀ r, (execAllM machineTrapExit s).get r = (frameAt s.mem (s.get .sp)).reg (if r = .t1 then .sp else r)) ∧
    (execAllM machineTrapExit s).mcsr .mepc = (frameAt s.mem (s.get .sp)).epc ∧
    (execAllM machineTrapExit s).mcsr .mstatus = (frameAt s.mem (s.get .sp)).status ∧
    (execAllM machineTrapExit s).mcsr .mscratch = s.get .sp + 288 := by
  obtain ⟨hsp, hmem, hepc, hstatus⟩ := loadCsrs_ok s
  obtain ⟨g, he, hin, hout⟩ := loads_ok .sp restoreSlots (execAllM loadCsrs s).toState (by decide) (by decide)
    (by decide)
  rw [hsp, hmem] at hin
  let v : MState := ⟨{ (execAllM loadCsrs s).toState with gpr := g }, (execAllM loadCsrs s).mcsr⟩
  have hexit : execAllM machineTrapExit s = execAllM loadSp v := by
    rw [machineTrapExit_eq, execAllM_append, execAllM_append, execAllM_base, he]
  have hvsp : v.get .sp = s.get .sp := by
    rw [← hsp]
    exact hout .sp (by decide)
  obtain ⟨hreg, hcsr⟩ := loadSp_ok v
  rw [hvsp] at hreg hcsr
  rw [hexit, hcsr]
  refine ⟨fun r => ?_, ?_, ?_, ?_⟩
  · have hslot := frameAt_slot s.mem (s.get .sp)
    rw [hreg]
    by_cases hsp : r = .t1 ∨ r = .sp
    · rw [if_pos hsp]
      refine Eq.trans (hslot (.sp, 8) List.mem_cons_self).symm (congrArg _ ?_)
      obtain rfl | rfl := hsp <;> rfl
    obtain ⟨hr, hr'⟩ := not_or.mp hsp
    rw [if_neg hsp, if_neg hr]
    obtain rfl | ⟨o, ho⟩ := reg_slot r
    · rfl
    obtain h | h := List.mem_cons.mp ho
    · exact absurd (Prod.mk.inj h).1 hr'
    · have hz : r ≠ .zero := by
        rintro rfl
        revert h
        simp [restoreSlots, frameSlots]
      rw [hslot _ ho, ← hin _ h]
      exact if_neg hz
  · rw [Function.update_of_ne (by decide)]
    exact hepc
  · rw [Function.update_of_ne (by decide)]
    exact hstatus
  · rw [Function.update_self]

/-! ## The whole path -/

/-- After a handler that does nothing, `t1` holds the stack pointer. -/
theorem MachineTrapKept.t1 {s : MState} (h : MachineTrapKept s) : s.get .t1 = s.get .sp := by
  obtain ⟨hsp, -, hi⟩ := machineTrapEntry_ok s
  have hr := (h.2 _ ⟨rfl, rfl⟩).reg .t1
  rw [(machineTrapExit_ok _).1, hsp, if_pos rfl, hi.reg] at hr
  exact hr.symm

/-- The trap path keeps everything exactly when `t1` already holds the stack pointer. -/
theorem machineTrap_kept_iff (s : MState) : MachineTrapKept s ↔ s.get .t1 = s.get .sp := by
  obtain ⟨hsp, ha0, hi⟩ := machineTrapEntry_ok s
  refine ⟨fun h => h.t1, fun h => ⟨?_, fun t' ht' => ?_⟩⟩
  · rw [ha0]
    exact hi
  · have hframe : frameAt t'.mem (t'.get .sp) = frameAt (execAllM machineTrapEntry s).mem (s.mcsr .mscratch - 288) := by
      rw [ht'.sp, hsp, ← ha0, ht'.frame]
    obtain ⟨hreg, hepc, hstatus, hscratch⟩ := machineTrapExit_ok t'
    rw [hframe] at hreg hepc hstatus
    refine ⟨fun r => ?_, hepc.trans hi.epc, hstatus.trans hi.status, ?_⟩
    · rw [hreg, hi.reg]
      by_cases hr : r = .t1
      · rw [if_pos hr, hr, h]
      · rw [if_neg hr]
    · rw [hscratch, ht'.sp, hsp, BitVec.sub_add_cancel]

/-- All registers but `sp`, which is not 0, are 0. -/
def trappedState : MState where
  gpr := Function.update (fun _ => 0) .sp 0x80200000
  csr _ := 0
  mem _ := 0
  mcsr _ := 0x80300000

/-- Its trap returns with `t1` changed. -/
theorem machineTrap_not_kept : ¬ MachineTrapKept trappedState := fun h => absurd h.t1 (by decide)

end RvOs
