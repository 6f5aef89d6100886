import RvOs.Proof.Read
import RvOs.Proof.SupervisorTrap
import RvOs.Proof.Write

/-!
# Trap handlers

A page fault in a handler is a panic (`runTrap_fault`), so a system call ends in
one exactly when it faults (`runTrap_syscall`). Handlers that return change the
frame as the trap path allows (`supervisorTrapHandler_handled`). A breakpoint of
a user program is passed over exactly when S-mode may load from its text
(`resumes_iff`), which it may not with SUM clear.
-/

namespace RvOs

open Exec

variable {T : Translation} {kernel frame : TrapFrame} {s s' : Hart}

/-! ## Panics -/

/-- There is no debug output. -/
theorem debugPrints_eq (str : String) : debugPrints str = pure () := if_neg (by decide)

theorem debugPrintHex_eq (val : U64) : debugPrintHex val = pure () := if_neg (by decide)

theorem panicTrap_ok {α : Type} (message : String) (frame : TrapFrame) (s : Hart) :
    ∃ s', (panicTrap message frame : Exec α) s = .error .panicked s' := by
  simp only [panicTrap, debugPrints_eq, debugPrintHex_eq, pure_bind]
  exact panic_ok "panic_trap" "Trap fatal." s

theorem supervisorTrapHandler_eq (T : Translation) (frame : TrapFrame) :
    supervisorTrapHandler T frame = trapHandler T frame := by
  simp only [supervisorTrapHandler, debugPrints_eq, debugPrintHex_eq, pure_bind]

/-- The frame of a page fault in the handler is one from the supervisor. -/
theorem trapStatus_spp (sstatus : U64) : trapStatus sstatus &&& SSTATUS_SPP = SSTATUS_SPP := by
  rw [trapStatus]
  ext i hi
  simp only [BitVec.getElem_and, BitVec.getElem_or]
  cases SSTATUS_SPP[i] <;> simp

/-- A page fault in the handler panics. -/
theorem faultFrame_panics (T : Translation) (kernel : TrapFrame) (access : Access) (va sstatus : U64) (s : Hart) :
    ∃ s', supervisorTrapHandler T (faultFrame kernel access va sstatus) s = .error .panicked s' := by
  have hspp : trapFromUser (faultFrame kernel access va sstatus) = false := by
    rw [trapFromUser, faultFrame, trapStatus_spp]
    decide
  have hcause : (faultFrame kernel access va sstatus).cause = faultCause access := rfl
  have hint : trapIsInterrupt (faultCause access) = false := by cases access <;> decide
  rw [supervisorTrapHandler_eq, trapHandler, hcause, hint, if_neg Bool.false_ne_true, handleException, hspp,
    if_neg Bool.false_ne_true, handleSupervisorException, hcause]
  cases access with
  | load =>
    rw [show (trapCode (faultCause .load)).toNat = 13 by decide]
    exact panicTrap_ok "Supervisor load page fault." _ s
  | store =>
    rw [show (trapCode (faultCause .store)).toNat = 15 by decide]
    exact panicTrap_ok "Supervisor store/AMO page fault." _ s

theorem runTrap_faultFrame (T : Translation) (kernel : TrapFrame) (access : Access) (va sstatus : U64) (s : Hart)
    (n : Nat) : ∃ s', runTrap T kernel n (faultFrame kernel access va sstatus) s = .error .panicked s' := by
  obtain ⟨s', h⟩ := faultFrame_panics T kernel access va sstatus s
  refine ⟨s', ?_⟩
  cases n with
  | zero => exact h
  | succ n => simp only [runTrap, h]

/-- A trap whose handler faults panics. -/
theorem runTrap_fault {access : Access} {va : U64}
    (h : supervisorTrapHandler T frame s = .error (.fault access va) s') (n : Nat) :
    outcome (runTrap T kernel (n + 1) frame s) = .error .panicked := by
  obtain ⟨s'', hp⟩ := runTrap_faultFrame T kernel access va s'.sstatus { s' with sstatus := trapStatus s'.sstatus } n
  simp only [runTrap, h, hp]
  rfl

theorem runTrap_ok {f' : TrapFrame} (h : supervisorTrapHandler T frame s = .ok f' s') (n : Nat) :
    outcome (runTrap T kernel (n + 1) frame s) = .ok f' := by
  simp only [runTrap, h]
  rfl

theorem runTrap_error {e : Stop} (he : ∀ access va, e ≠ .fault access va)
    (h : supervisorTrapHandler T frame s = .error e s') (n : Nat) :
    outcome (runTrap T kernel (n + 1) frame s) = .error e := by
  cases e with
  | fault access va => exact absurd rfl (he access va)
  | waiting | panicked | halted =>
    simp only [runTrap, h]
    rfl

/-! ## System calls -/

/-- An `ecall` of a user program is a system call. -/
theorem userEcall_handler (h : frame.isUserEcall) (T : Translation) :
    supervisorTrapHandler T frame = syscallHandle T frame := by
  rw [TrapFrame.isUserEcall, Bool.and_eq_true, decide_eq_true_iff, decide_eq_true_iff] at h
  have hu : trapFromUser frame = true := by rw [trapFromUser, h.1]; rfl
  have hint : trapIsInterrupt 8 = false := by decide
  rw [supervisorTrapHandler_eq, trapHandler, h.2, hint, if_neg Bool.false_ne_true, handleException, hu, if_pos rfl,
    handleUserException, h.2, show (trapCode 8).toNat = 8 by decide]
  rfl

/-- What a trap makes of the outcome of its system call. -/
def trapOutcome (frame : TrapFrame) : Except Stop U64 → Except Stop TrapFrame
  | .ok v => .ok { frame with a0 := v, epc := frame.epc + 4 }
  | .error (.fault _ _) => .error .panicked
  | .error e => .error e

theorem runTrap_syscall {call : Exec U64} {r : Except Stop U64} (hcall : supervisorTrapHandler T frame = do
      let a0 ← call
      return { frame with a0, epc := frame.epc + 4 }) (h : call s = finish r s') (kernel : TrapFrame) (n : Nat) :
    outcome (runTrap T kernel (n + 1) frame s) = trapOutcome frame r := by
  cases r with
  | ok v =>
    have ho : supervisorTrapHandler T frame s = .ok { frame with a0 := v, epc := frame.epc + 4 } s' := by
      rw [hcall]
      exact bind_ok h
    exact runTrap_ok ho n
  | error e =>
    have he : supervisorTrapHandler T frame s = .error e s' := by
      rw [hcall]
      exact bind_error h
    cases e with
    | fault access va => exact runTrap_fault he n
    | waiting | panicked | halted => exact runTrap_error (fun _ _ h => by cases h) he n

/-- When `write` faults. -/
theorem WriteEnd.caught_iff {buffer : U64} {length k : Nat} {total : U64} {r : Except Stop U64}
    (h : WriteEnd T buffer length k total r) (hsent : ∀ i, Sent T buffer length i ↔ i < k) :
    WriteCaught T buffer length ↔ ∃ v, r = .ok v := by
  have hread {i : Nat} (hi : i < k) : T.Allows .load (byteAddr buffer i) := by
    have hs := (hsent i).mpr hi
    exact (hs.2 i hs.1 (Nat.le_refl _)).1
  cases h with
  | done hk => exact ⟨fun _ => ⟨_, rfl⟩, fun _ i hi hf => absurd (hread (hk ▸ hi)) hf⟩
  | null hlt chunk hk =>
    refine ⟨fun _ => ⟨_, rfl⟩, fun _ i hi hf => ⟨k / 256, ?_, ?_⟩⟩
    · have hki : k ≤ i := Nat.le_of_not_lt fun hik => hf (hread hik)
      omega
    · rwa [show 256 * (k / 256) = k by omega]
  | fault i hki hi chunk hik hk hf =>
    refine ⟨fun hc => ?_, fun ⟨v, hv⟩ => by cases hv⟩
    obtain ⟨j, hj, hnull⟩ := hc i hi hf
    rcases Nat.lt_or_ge (256 * j) k with hjk | hjk
    · -- an earlier chunk, which was sent
      have hs := (hsent (256 * j)).mpr hjk
      have hne := (hs.2 (256 * j) hs.1 (Nat.le_refl _)).2
      rw [show 256 * (256 * j / 256) = 256 * j by omega] at hne
      exact absurd hnull hne
    · rw [show 256 * j = k by omega] at hnull
      exact absurd hnull hk

theorem write_handler (hu : frame.isUserEcall) (hw : frame.a7 = SYSCALL_WRITE) : supervisorTrapHandler T frame = do
    let a0 ← syscallWrite T frame.a0 frame.a1 frame.a2
    return { frame with a0, epc := frame.epc + 4 } := by
  rw [userEcall_handler hu, syscallHandle, hw, if_neg (by decide), if_pos rfl]

theorem read_handler (hu : frame.isUserEcall) (hr : frame.a7 = SYSCALL_READ) : supervisorTrapHandler T frame = do
    let a0 ← syscallRead T frame.a0 frame.a1 frame.a2
    return { frame with a0, epc := frame.epc + 4 } := by
  rw [userEcall_handler hu, syscallHandle, hr, if_pos rfl]

/-- The frame of a system call with three arguments. -/
def userCall (number a0 a1 a2 : U64) : TrapFrame where
  ra := 0
  sp := 0
  gp := 0
  tp := 0
  t0 := 0
  t1 := 0
  t2 := 0
  s0 := 0
  s1 := 0
  a0 := a0
  a1 := a1
  a2 := a2
  a3 := 0
  a4 := 0
  a5 := 0
  a6 := 0
  a7 := number
  s2 := 0
  s3 := 0
  s4 := 0
  s5 := 0
  s6 := 0
  s7 := 0
  s8 := 0
  s9 := 0
  s10 := 0
  s11 := 0
  t3 := 0
  t4 := 0
  t5 := 0
  t6 := 0
  epc := 0x400000
  status := 0
  cause := 8
  tval := 0

def idleHart : Hart := { mem := fun _ => 0, sstatus := 0, rx := [], tx := [] }

/-! ## What handlers do to the frame -/

theorem syscallExit_ok {α : Type} (status : U64) (s : Hart) :
    ∃ s', (syscallExit status : Exec α) s = .error .halted s' := by
  rw [syscallExit, bind_ok (uartPuts_eq _ _), bind_ok (printHex_eq _ _), bind_ok (uartPuts_eq _ _)]
  exact ⟨_, rfl⟩

theorem panicTrap_ne {α : Type} {message : String} {frame : TrapFrame} {a : α} :
    (panicTrap message frame : Exec α) s ≠ .ok a s' := by
  obtain ⟨_, h⟩ := panicTrap_ok (α := α) message frame s
  rw [h]
  exact fun h => by cases h

theorem advanceTrap_handled {f' : TrapFrame} (h : advanceTrap T frame s = .ok f' s') : FrameHandled frame f' := by
  rw [advanceTrap] at h
  cases hl : load16 T frame.epc s with
  | error e s₁ =>
    rw [bind_error hl] at h
    cases h
  | ok b s₁ =>
    rw [bind_ok hl] at h
    split at h
    · obtain ⟨rfl, -⟩ := EStateM.Result.ok.inj h
      exact ⟨rfl, fun _ => rfl⟩
    · obtain ⟨rfl, -⟩ := EStateM.Result.ok.inj h
      exact ⟨rfl, fun _ => rfl⟩

theorem syscallHandle_handled {f' : TrapFrame} (hu : frame.isUserEcall) (h : syscallHandle T frame s = .ok f' s') :
    FrameHandled frame f' := by
  have hres {call : Exec U64} (h : (do
      let a0 ← call
      return { frame with a0, epc := frame.epc + 4 } : Exec TrapFrame) s = .ok f' s') : FrameHandled frame f' := by
    cases hc : call s with
    | error e s₁ =>
      rw [bind_error hc] at h
      cases h
    | ok v s₁ =>
      rw [bind_ok hc] at h
      obtain ⟨rfl, -⟩ := EStateM.Result.ok.inj h
      exact ⟨rfl, fun hn => absurd hu hn⟩
  have hexit (h : (syscallExit frame.a0 : Exec TrapFrame) s = .ok f' s') : FrameHandled frame f' := by
    obtain ⟨_, he⟩ := syscallExit_ok (α := TrapFrame) frame.a0 s
    rw [he] at h
    cases h
  rw [syscallHandle] at h
  split_ifs at h
  · exact hres h
  · exact hres h
  · exact hexit h
  · exact hexit h
  · obtain ⟨rfl, -⟩ := EStateM.Result.ok.inj h
    exact ⟨rfl, fun hn => absurd hu hn⟩

theorem handleInterrupt_eq (frame : TrapFrame) : ∃ message, handleInterrupt frame = panicTrap message frame := by
  rw [handleInterrupt]
  split <;> exact ⟨_, rfl⟩

theorem handleSupervisorException_eq (T : Translation) (frame : TrapFrame) :
    (∃ message, handleSupervisorException T frame = panicTrap message frame) ∨
      handleSupervisorException T frame = advanceTrap T frame := by
  rw [handleSupervisorException]
  split
  case h_4 => exact .inr rfl
  all_goals exact .inl ⟨_, rfl⟩

theorem handleUserException_eq (T : Translation) (frame : TrapFrame) :
    (∃ message, handleUserException T frame = panicTrap message frame) ∨
      handleUserException T frame = advanceTrap T frame ∨
      (trapCode frame.cause).toNat = 8 ∧ handleUserException T frame = syscallHandle T frame := by
  rw [handleUserException]
  split
  case h_4 => exact .inr (.inl rfl)
  case h_9 hcode => exact .inr (.inr ⟨hcode, rfl⟩)
  all_goals exact .inl ⟨_, rfl⟩

/-- The code of an exception is its cause. -/
theorem cause_of_trapCode {cause : U64} (hi : trapIsInterrupt cause = false) :
    (trapCode cause).toNat = cause.toNat := by
  rw [trapCode, Bits.toNat_and_low cause (k := 63) (by decide)]
  rw [trapIsInterrupt, bne_eq_false_iff_eq] at hi
  have hi := congrArg BitVec.toNat hi
  rw [BitVec.toNat_ushiftRight, Nat.shiftRight_eq_div_pow] at hi
  change _ = 0 at hi
  omega

/-- A handler that returns changes the frame as the trap path allows. -/
theorem supervisorTrapHandler_handled {f' : TrapFrame} (h : supervisorTrapHandler T frame s = .ok f' s') :
    FrameHandled frame f' := by
  rw [supervisorTrapHandler_eq, trapHandler] at h
  split at h
  · obtain ⟨message, he⟩ := handleInterrupt_eq frame
    exact absurd (he ▸ h) panicTrap_ne
  rename_i hint
  rw [Bool.not_eq_true] at hint
  rw [handleException] at h
  split at h
  · rename_i hspp
    rcases handleUserException_eq T frame with ⟨message, he⟩ | he | ⟨hcode, he⟩ <;> rw [he] at h
    · exact absurd h panicTrap_ne
    · exact advanceTrap_handled h
    · refine syscallHandle_handled ?_ h
      rw [cause_of_trapCode hint] at hcode
      rw [trapFromUser, beq_iff_eq] at hspp
      rw [TrapFrame.isUserEcall, hspp, BitVec.eq_of_toNat_eq (y := 8) hcode]
      decide
  · rcases handleSupervisorException_eq T frame with ⟨message, he⟩ | he <;> rw [he] at h
    · exact absurd h panicTrap_ne
    · exact advanceTrap_handled h

/-! ## Breakpoints -/

/-- The test of `advance_trap`: the low two bits are 11. -/
theorem and_three_iff (firstHalf : BitVec 16) : firstHalf &&& 0x3 = 0x3 ↔ firstHalf.extractLsb' 0 2 = 0b11 := by
  rw [← BitVec.toNat_inj, ← BitVec.toNat_inj, BitVec.toNat_and, BitVec.extractLsb'_toNat, Nat.shiftRight_zero]
  exact Eq.congr_left (Nat.and_two_pow_sub_one_eq_mod firstHalf.toNat 2)

theorem advanceTrap_ok {pa : Addr} (h : sModeAddr T s.sstatus .load frame.epc = some pa) :
    advanceTrap T frame s =
      .ok { frame with epc := frame.epc + instructionSize (s.mem (pa + 1) ++ s.mem pa) } s := by
  have hl : load16 T frame.epc s = .ok (s.mem (pa + 1) ++ s.mem pa) s := by rw [load16, h]
  rw [advanceTrap, bind_ok hl, instructionSize]
  by_cases hc : (s.mem (pa + 1) ++ s.mem pa).extractLsb' 0 2 = 0b11
  · rw [if_pos hc, if_neg (not_not.mpr ((and_three_iff _).mpr hc))]
    rfl
  · rw [if_neg hc, if_pos fun h => hc ((and_three_iff _).mp h)]
    rfl

theorem advanceTrap_fault (h : sModeAddr T s.sstatus .load frame.epc = none) :
    advanceTrap T frame s = .error (.fault .load frame.epc) s := by
  have hl : load16 T frame.epc s = .error (.fault .load frame.epc) s := by rw [load16, h]
  rw [advanceTrap, bind_error hl]

/-- A breakpoint of a user program goes to `advance_trap`. -/
theorem userBreakpoint_handler (hu : frame.status &&& SSTATUS_SPP = 0) (hc : frame.cause = 3) (T : Translation) :
    trapHandler T frame = advanceTrap T frame := by
  have hu : trapFromUser frame = true := by rw [trapFromUser, hu]; rfl
  have hint : trapIsInterrupt 3 = false := by decide
  rw [trapHandler, hc, hint, if_neg Bool.false_ne_true, handleException, hu, if_pos rfl, handleUserException, hc,
    show (trapCode 3).toNat = 3 by decide]
  rfl

theorem sModeAddr_phys {sstatus va : U64} {access : Access} {pa : Addr} (h : sModeAddr T sstatus access va = some pa) :
    T.phys va = pa := by
  rw [sModeAddr] at h
  split at h
  · cases h
  · rename_i pa' fl ht
    rw [Translation.phys, ht]
    exact Option.some.inj (Option.ite_none_right_eq_some.mp h).2

theorem resumes_iff (hu : frame.status &&& SSTATUS_SPP = 0) (hc : frame.cause = 3) (T : Translation) (s : Hart) :
    Resumes T frame s ↔ (sModeAddr T s.sstatus .load frame.epc).isSome = true := by
  rw [Resumes, userBreakpoint_handler hu hc]
  cases h : sModeAddr T s.sstatus .load frame.epc with
  | none =>
    rw [advanceTrap_fault h]
    exact iff_of_false (fun h => by cases h) Bool.false_ne_true
  | some pa =>
    rw [advanceTrap_ok h, sModeAddr_phys h]
    exact iff_of_true rfl rfl

/-- S-mode may not load from user text. -/
theorem UserBreakpoint.denied (h : UserBreakpoint T frame s) : sModeAddr T s.sstatus .load frame.epc = none := by
  obtain ⟨pa, fl, ht, -, -, hfu⟩ := h.text
  rw [sModeAddr, ht]
  refine if_neg ?_
  rw [h.sum, sModeAllows, hfu, Bool.not_true, Bool.or_false, Bool.and_false]
  exact Bool.false_ne_true

/-- No breakpoint of a user program is passed over: `advance_trap` faults on its
text, which is a panic. -/
theorem userBreakpoint_panics (T : Translation) (kernel frame : TrapFrame) (s : Hart) (n : Nat)
    (h : UserBreakpoint T frame s) : ¬ Resumes T frame s ∧
      outcome (trapHandler T frame s) = .error (.fault .load frame.epc) ∧
      outcome (runTrap T kernel (n + 1) frame s) = .error .panicked := by
  have hf : trapHandler T frame s = .error (.fault .load frame.epc) s := by
    rw [userBreakpoint_handler h.user h.cause, advanceTrap_fault h.denied]
  refine ⟨?_, ?_, ?_⟩
  · rw [resumes_iff h.user h.cause, h.denied]
    exact Bool.false_ne_true
  · rw [hf]
    rfl
  · exact runTrap_fault ((congrFun (supervisorTrapHandler_eq T frame) s).trans hf) n

/-- The frame of a breakpoint at the entry of the user program. -/
def userBreak : TrapFrame := { userCall 0 0 0 0 with cause := 3 }

theorem userBreakpoint_panics_text :
    outcome (runTrap (fun va => some (va, leafFlags (PTE_R ||| PTE_X ||| PTE_U)))
        (userCall 0 0 0 0) 1 userBreak idleHart) =
      .error .panicked :=
  (userBreakpoint_panics _ (userCall 0 0 0 0) userBreak idleHart 0
    ⟨by decide, rfl, by decide, _, _, rfl, by decide, by decide, by decide⟩).2.2

/-- The loaded user program stops the kernel with a breakpoint. -/
theorem sample_breakpoint : ∃ T, SampleProcess T ∧ UserBreakpoint T userBreak idleHart ∧
    ¬ Resumes T userBreak idleHart := by
  obtain ⟨T, h⟩ := sample_process
  obtain ⟨pa, ht⟩ := h.userText
  have hb : UserBreakpoint T userBreak idleHart :=
    ⟨by decide, rfl, by decide, pa, _, ht, by decide, by decide, by decide⟩
  refine ⟨T, h, hb, fun hr => ?_⟩
  rw [resumes_iff hb.user hb.cause, hb.denied] at hr
  cases hr

end RvOs
