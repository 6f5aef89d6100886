import RvOs.Proof.TrapHandler
import RvOs.Spec.TrapRuns

/-!
# Traps bring the stack pointers back

While traps are pending, `sscratch` holds what the last of them left in it
(`Nested`): the trap stack, until a trap from U-mode swaps it with the stack
pointer of the user. Every step of a run keeps this (`TrapStep.inv`), and with
it every handler that returns leads back to what its trap interrupted
(`supervisorTrap_discipline`).
-/

namespace RvOs

open RiscV

variable {supervisorTrapStackTop : U64} {mode : Mode} {epc cause tval : U64}

/-! ## The hart -/

@[simp] theorem takeTrap_get (s : State) (r : Reg) : (takeTrap mode epc cause tval s).get r = s.get r := rfl

@[simp] theorem takeTrap_sscratch (s : State) : (takeTrap mode epc cause tval s).csr .sscratch = s.csr .sscratch := rfl

@[simp] theorem sret_sscratch (s : State) : (sret s).csr .sscratch = s.csr .sscratch := rfl

/-- SPP at the entry is the mode that is interrupted. -/
theorem spp_takeTrap (s : State) : spp (takeTrap mode epc cause tval s) = 0 ↔ mode = .user := by
  have h : spp (takeTrap mode epc cause tval s) = takenStatus mode (s.csr .sstatus) &&& SSTATUS_SPP := rfl
  rw [h]
  cases mode with
  | user =>
    have hn : ~~~SSTATUS_SPP &&& SSTATUS_SPP = 0 := by decide
    simp [takenStatus, BitVec.and_assoc, hn]
  | supervisor =>
    rw [takenStatus, trapStatus_spp]
    decide

theorem trapStack_takeTrap (s : State) : trapStack (takeTrap mode epc cause tval s) =
    match mode with
    | .user => s.csr .sscratch
    | .supervisor => s.get .sp := by
  simp only [trapStack, spp_takeTrap]
  cases mode <;> rfl

/-- What the entry leaves in `sscratch`. -/
theorem called_sscratch (s : State) : (called (takeTrap mode epc cause tval s)).csr .sscratch =
    match mode with
    | .user => s.get .sp
    | .supervisor => s.csr .sscratch := by
  rw [(called_ok _).2.2.2, entered_csr]
  simp only [spp_takeTrap, takeTrap_get, takeTrap_sscratch]
  cases mode <;> simp

/-! ## Entry and exit -/

theorem supervisorTrap_exit (s : State) (n : Nat) : run sTrap id (n + 2) .restore s = some (returned s) := by
  rw [run_beqz s _ rfl]
  exact run_sret _ _ (return_exit _)

theorem entry_path (s : State) (n : Nat) : path sTrap (n + 3) .supervisorTrapEntry s =
    [.supervisorTrapEntry, if spp s = 0 then .fromUser else .fromSupervisor, .buildFrame] := by
  refine (path_beqz s _ rfl).trans (congrArg _ ?_)
  refine (path_goto _ _ (entry_exit s)).trans ?_
  rw [path_call _ _ rfl]
  exact congrArg (fun l => [l, _]) (entry_branch s)

/-! What a handler that returns leaves to the exit. -/

theorem Handled.returns {s t : State} (h : Handled s t) : HandlerReturns s t := ⟨h.sp, h.frame.frame⟩

section HandlerReturns

variable {s t : State} (h : HandlerReturns (called s) t)

include h

theorem handled_frame : frameAt t.mem (t.get .sp) =
    { savedFrame s with a0 := (frameAt t.mem (t.get .sp)).a0, epc := (frameAt t.mem (t.get .sp)).epc } := by
  obtain ⟨hsp, ha0, hframe, -⟩ := called_ok s
  have hf := h.frame
  rw [ha0, hframe, ← hsp, ← h.sp] at hf
  exact hf

theorem handled_t0 : (frameAt t.mem (t.get .sp)).t0 &&& 0x100 = spp s := by
  rw [handled_frame h]
  rfl

theorem returned_status : (returned t).csr .sstatus = s.csr .sstatus := by
  rw [returned_csr, handled_frame h]
  rfl

theorem returned_sscratch : (returned t).csr .sscratch =
    if spp s = 0 then trapStack s else t.csr .sscratch := by
  rw [returned_csr]
  simp only [handled_t0 h]
  rw [h.sp, (called_ok s).1, BitVec.sub_add_cancel]

theorem returned_sp : (returned t).get .sp = s.get .sp := by
  rw [returned_get, handled_frame h]
  rfl

theorem exit_path (n : Nat) : path sTrap (n + 2) .restore t =
    [.restore, if spp s = 0 then .returnToUser else .returnToSupervisor] := by
  obtain ⟨v, hv, -, hreg, -⟩ := restore_ok t
  have hb : branch (execAll restore.body t) .t1 TrapLabel.returnToUser .returnToSupervisor =
      if spp s = 0 then .returnToUser else .returnToSupervisor := by
    rw [branch, hv, hreg .t1 (by decide), returnedReg, handled_t0 h]
  refine (path_beqz t _ rfl).trans (congrArg _ ?_)
  rw [path_sret _ _ (return_exit _)]
  exact congrArg (fun l => [l]) hb

end HandlerReturns

/-! ## Entering U-mode -/

def contextSlots : List (Reg × Nat) := (.ra, 0) :: (.sp, 8) :: (frameSlots.drop 2).filter (·.1 ≠ .a0)

theorem userEnter_body : userEnter.body =
    csrLoads .t0 .a0 [(.sepc, 248), (.sstatus, 256)] ++ (loads .a0 contextSlots ++ [.ld .a0 72 .a0]) := rfl

theorem userContextInit_spp (sstatus entry stackTop arg0 arg1 : U64) :
    (userContextInit sstatus entry stackTop arg0 arg1).status &&& SSTATUS_SPP = 0 := by
  have h : ∀ i (hi : i < 64), SSTATUS_SPP[i] = true → SSTATUS_SPIE[i] = false := by decide
  show (((sstatus &&& ~~~SSTATUS_SPP) ||| SSTATUS_SPIE) &&& ~~~SSTATUS_SIE) &&& SSTATUS_SPP = 0
  ext i hi
  simp only [BitVec.getElem_and, BitVec.getElem_or, BitVec.getElem_not]
  cases hs : SSTATUS_SPP[i] with
  | false => simp
  | true => simp [h i hi hs]

/-- `user_enter` takes `sstatus` and the stack pointer from the context, and leaves `sscratch` alone. -/
theorem userEnter_ok (s : State) : ∃ s', run (fun _ => userEnter) id 1 () s = some s' ∧
    s'.csr .sstatus = (contextAt s.mem (s.get .a0)).status ∧ s'.get .sp = (contextAt s.mem (s.get .a0)).sp ∧
    s'.csr .sscratch = s.csr .sscratch := by
  obtain ⟨k, v, hk, hin, hout⟩ := csrLoads_ok (by decide : Reg.t0 ≠ .zero) (by decide : Reg.a0 ≠ .t0)
    [(.sepc, 248), (.sstatus, 256)] s (by decide)
  obtain ⟨g, hg, hgin, -⟩ := loads_ok .a0 contextSlots { s.set .t0 v with csr := k }
    (by decide) (by decide) (by decide)
  have ha0 : ({ s.set .t0 v with csr := k } : State).get .a0 = s.get .a0 :=
    State.get_set_of_ne s v (by decide : Reg.a0 ≠ .t0)
  rw [ha0] at hgin
  refine ⟨_, run_sret _ _ rfl, ?_⟩
  rw [userEnter_body, execAll_append, hk, execAll_append, hg]
  refine ⟨hin (.sstatus, 256) (by decide), ?_, hout .sscratch (by decide)⟩
  exact (State.get_set_of_ne _ _ (by decide)).trans (hgin (.sp, 8) (by decide))

theorem userEnter_mode {s s' : State} {sstatus entry stackTop arg0 arg1 : U64}
    (hc : contextAt s.mem (s.get .a0) = userContextInit sstatus entry stackTop arg0 arg1)
    (h : s'.csr .sstatus = (contextAt s.mem (s.get .a0)).status) : sretMode s' = .user := by
  rw [sretMode, h, hc, if_pos (userContextInit_spp ..)]

/-! ## One step -/

variable (supervisorTrapStackTop) in
/-- `sscratch` is `v` while the traps are pending. -/
def Nested : List PendingTrap → Word → Prop
  | [], v => v = supervisorTrapStackTop
  | p :: pending, v => Nested pending (p.interrupted.csr .sscratch) ∧ (p.mode = .user → pending = []) ∧
    (∃ epc cause tval, p.taken = takeTrap p.mode epc cause tval p.interrupted) ∧ p.called = called p.taken ∧
    v = p.called.csr .sscratch

variable (supervisorTrapStackTop) in
/-- What every step of a run keeps. -/
structure TrapInv (c : TrapState) : Prop where
  user : c.mode = .user → c.pending = []
  nested : Nested supervisorTrapStackTop c.pending (c.state.csr .sscratch)

/-- The mode at the `sret` of a trap that is handled. -/
theorem sretMode_returned {s t : State} (h : HandlerReturns (called (takeTrap mode epc cause tval s)) t) :
    sretMode (returned t) = mode := by
  have hs : (returned t).csr .sstatus &&& SSTATUS_SPP = spp (takeTrap mode epc cause tval s) := by
    rw [returned_status h]
    rfl
  rw [sretMode, hs]
  simp only [spp_takeTrap]
  cases mode <;> rfl

/-- A handled trap leaves `sscratch` as it was. -/
theorem sscratch_returned {s t : State} (h : HandlerReturns (called (takeTrap mode epc cause tval s)) t)
    (ht : t.csr .sscratch = (called (takeTrap mode epc cause tval s)).csr .sscratch) :
    (returned t).csr .sscratch = s.csr .sscratch := by
  rw [returned_sscratch h, ht, called_sscratch, trapStack_takeTrap]
  simp only [spp_takeTrap]
  cases mode <;> rfl

variable {p : PendingTrap} {pending : List PendingTrap} {s : State}

theorem Nested.sscratch (h : Nested supervisorTrapStackTop (p :: pending) (s.csr .sscratch))
    (hh : HandlerReturns p.called s) : (returned s).csr .sscratch = p.interrupted.csr .sscratch := by
  obtain ⟨-, -, ⟨epc, cause, tval, ht⟩, hc, hv⟩ := h
  rw [hc, ht] at hh hv
  exact sscratch_returned hh hv

/-- The last trap pending returns, once it is handled. -/
theorem Nested.returns (h : Nested supervisorTrapStackTop (p :: pending) (s.csr .sscratch))
    (hh : HandlerReturns p.called s) : TrapReturns supervisorTrapStackTop p s (returned s) := by
  have hs := h.sscratch hh
  obtain ⟨hn, hu, ⟨epc, cause, tval, ht⟩, hc, -⟩ := h
  rw [hc] at hh
  have hsp : (returned s).get .sp = p.interrupted.get .sp := by
    rw [returned_sp hh, ht, takeTrap_get]
  have hspp : spp p.taken = 0 ↔ p.mode = .user := by
    rw [ht]
    exact spp_takeTrap _
  have hm : sretMode (returned s) = p.mode := by
    rw [ht] at hh
    exact sretMode_returned hh
  refine ⟨hm, fun hr => ⟨?_, hsp⟩, fun _ => ⟨hs, hsp⟩, ?_, ?_, ?_⟩
  · -- no trap is pending under one from U-mode
    rw [hu (hm.symm.trans hr)] at hn
    exact hs.trans hn
  all_goals
    simp only [entry_path, exit_path hh, ← hspp]
    by_cases h0 : spp p.taken = 0 <;> simp [h0]

theorem TrapStep.inv {c c' : TrapState} (h : TrapStep c c') (hc : TrapInv supervisorTrapStackTop c) :
    TrapInv supervisorTrapStackTop c' := by
  cases h with
  | code h =>
    refine ⟨hc.user, ?_⟩
    show Nested _ _ _
    rw [h]
    exact hc.nested
  | userEnter hctx h =>
    rename_i s s' _ _ _ _ _
    obtain ⟨s'', hr, -, -, hs⟩ := userEnter_ok s
    obtain rfl : s'' = s' := Option.some.inj (hr.symm.trans h)
    refine ⟨fun _ => rfl, ?_⟩
    show (sret s'').csr .sscratch = _
    rw [sret_sscratch, hs]
    exact hc.nested
  | trap h =>
    rw [supervisorTrap_call _ 0] at h
    obtain rfl := Option.some.inj h
    refine ⟨nofun, hc.nested, hc.user, ⟨_, _, _, rfl⟩, rfl, rfl⟩
  | ret hh h =>
    rw [supervisorTrap_exit _ 0] at h
    obtain rfl := Option.some.inj h
    have hm := (hc.nested.returns hh).mode
    refine ⟨fun hu => hc.nested.2.1 (hm.symm.trans hu), ?_⟩
    show Nested _ _ ((sret _).csr .sscratch)
    rw [sret_sscratch, hc.nested.sscratch hh]
    exact hc.nested.1

/-! ## Runs -/

theorem trapsReady_inv (s : State) : TrapInv supervisorTrapStackTop (trapsReady supervisorTrapStackTop s) :=
  ⟨fun _ => rfl, State.setCsr_csr ..⟩

theorem trapRuns_inv {s : State} {c : TrapState}
    (h : Relation.ReflTransGen TrapStep (trapsReady supervisorTrapStackTop s) c) :
    TrapInv supervisorTrapStackTop c := by
  induction h with
  | refl => exact trapsReady_inv s
  | tail _ hstep ih => exact hstep.inv ih

theorem TrapInv.discipline {c : TrapState} (h : TrapInv supervisorTrapStackTop c) :
    SpDiscipline supervisorTrapStackTop c := by
  have hempty (hp : c.pending = []) : c.state.csr .sscratch = supervisorTrapStackTop := by
    have hn := h.nested
    rw [hp] at hn
    exact hn
  refine ⟨fun hu => ⟨h.user hu, hempty (h.user hu)⟩, fun hp _ _ _ _ _ hc => ?_, fun p pending hp hh => ?_⟩
  · obtain ⟨s', hr, hstatus, hsp, hscratch⟩ := userEnter_ok c.state
    rw [hc] at hsp
    exact ⟨s', hr, userEnter_mode hc hstatus, hscratch.trans (hempty hp), hsp⟩
  · have hn := h.nested
    rw [hp] at hn
    exact ⟨_, supervisorTrap_exit _ 0, hn.returns hh⟩

/-- In every run, each trap comes back to the mode and the stack pointer it
interrupted, by the branch that it came in by, and `sscratch` is the trap stack
when U-mode runs. -/
theorem supervisorTrap_discipline (supervisorTrapStackTop : U64) {s : State} {c : TrapState}
    (h : Relation.ReflTransGen TrapStep (trapsReady supervisorTrapStackTop s) c) :
    SpDiscipline supervisorTrapStackTop c :=
  (trapRuns_inv h).discipline

/-! A breakpoint in the handler of an `ecall`. -/

/-- The context of `user_enter` is at 0. -/
def bootState : State :=
  { gpr := fun _ => 0
    csr := fun _ => 0
    mem := Mem.write64 (fun _ => 0) 256 0x20 }

theorem bootState_context : contextAt bootState.mem 0 = userContextInit 0 0 0 0 0 := by decide +kernel

/-- U-mode after `user_enter`. -/
def userState (supervisorTrapStackTop : U64) : State :=
  sret (execAll userEnter.body (supervisorTrapsInit supervisorTrapStackTop bootState))

def userEcall (supervisorTrapStackTop : U64) : PendingTrap where
  mode := .user
  interrupted := userState supervisorTrapStackTop
  taken := takeTrap .user 0 8 0 (userState supervisorTrapStackTop)
  called := called (takeTrap .user 0 8 0 (userState supervisorTrapStackTop))

variable (supervisorTrapStackTop) in
theorem userEcall_run : Relation.ReflTransGen TrapStep (trapsReady supervisorTrapStackTop bootState)
    ⟨.supervisor, (userEcall supervisorTrapStackTop).called, [userEcall supervisorTrapStackTop]⟩ := by
  have hr : run (fun _ => userEnter) id 1 () (supervisorTrapsInit supervisorTrapStackTop bootState) =
      some (execAll userEnter.body (supervisorTrapsInit supervisorTrapStackTop bootState)) := run_sret _ _ rfl
  have henter := TrapStep.userEnter (s := supervisorTrapsInit supervisorTrapStackTop bootState) bootState_context hr
  obtain ⟨s', hs', hstatus, -⟩ := userEnter_ok (supervisorTrapsInit supervisorTrapStackTop bootState)
  obtain rfl := Option.some.inj (hs'.symm.trans hr)
  rw [userEnter_mode bootState_context hstatus] at henter
  exact (Relation.ReflTransGen.single henter).tail (.trap (supervisorTrap_call _ 0))

/-- The state at the breakpoint. -/
def kernelTaken : State := takeTrap .supervisor 0x80200000 3 0 (userEcall 0x80010000).called

/-- The handler of the breakpoint returns. -/
def breakpointHandled : TrapState where
  mode := .supervisor
  state := onFrame skipEbreak (called kernelTaken)
  pending := [⟨.supervisor, (userEcall 0x80010000).called, kernelTaken, called kernelTaken⟩, userEcall 0x80010000]

theorem breakpointHandled_run :
    Relation.ReflTransGen TrapStep (trapsReady 0x80010000 bootState) breakpointHandled := by
  have hnested : TrapStep _ ⟨.supervisor, called kernelTaken, breakpointHandled.pending⟩ :=
    .trap (supervisorTrap_call kernelTaken 0)
  exact ((userEcall_run 0x80010000).tail hnested).tail (.code rfl)

/-- The breakpoint goes back to the handler of the `ecall`. -/
theorem supervisorTrap_discipline_nested : ∃ s', run sTrap id 2 .restore breakpointHandled.state = some s' ∧
    sretMode s' = .supervisor ∧ s'.get .sp = (userEcall 0x80010000).called.get .sp ∧
    .returnToSupervisor ∈ path sTrap 2 .restore breakpointHandled.state := by
  have h := supervisorTrap_discipline 0x80010000 breakpointHandled_run
  obtain ⟨s', hs', hret⟩ := h.returns _ _ rfl (onFrame_handled (called kernelTaken) (skipEbreak_handled _)).returns
  have hfrom : .fromSupervisor ∈ path sTrap 3 .supervisorTrapEntry kernelTaken := by
    have hspp : spp kernelTaken ≠ 0 := mt (spp_takeTrap _).mp (by decide)
    rw [entry_path, if_neg hspp]
    simp
  exact ⟨s', hs', hret.mode, (hret.supervisor hret.mode).2, hret.toSupervisor.mpr hfrom⟩

end RvOs
