import RvOs.Proof.BootedUser
import RvOs.Spec.NoPanic

/-!
# Panics in system calls

A call that faults is a panic. So a `write` takes the kernel down exactly when it
has to access a byte out of reach and no null pointer check comes first, and a
`read` when it has to store to such a byte, or over the kernel (`syscall_noPanic`).
The memory of a loaded program is no part of the kernel, so calls that pass only
this do not panic (`UserBoot.noPanic`).
-/

namespace RvOs

open Exec

variable {root : Addr} {own : Addr → Prop} {kernel frame : TrapFrame} {s : Hart} {n : Nat}

/-! ## Ends of a trap -/

/-- The run under the tables in force is always a possibility. -/
theorem MayEnd.run (root : Addr) (own : Addr → Prop) (kernel frame : TrapFrame) (n : Nat) (s : Hart) :
    MayEnd root own kernel frame n s (outcome (runTrap (.ofTables s.mem root) kernel n frame s)) := by
  by_cases h : TrapSpares root own frame s
  · exact .runs h
  · exact .wild h

theorem TrapSpares.of_write (hw : frame.a7 = SYSCALL_WRITE) : TrapSpares root own frame s := fun _ hr =>
  absurd (hr.symm.trans hw) (by decide)

/-- The stores of a trap that spares the kernel have not disturbed it when it is over. -/
theorem TrapSpares.undisturbed (h : TrapSpares root own frame s) (hu : frame.isUserEcall)
    (hr : frame.a7 = SYSCALL_READ) :
    Undisturbed root own s.mem (final (supervisorTrapHandler (.ofTables s.mem root) frame s)).mem := by
  rw [read_handler hu hr, ← map_eq_pure_bind, final_map]
  by_cases hd : ∃ line, Delivers frame.a0 frame.a1 frame.a2 s.rx line
  · obtain ⟨line, hd⟩ := hd
    obtain ⟨k, r, hk, hend, hx⟩ := syscallRead_delivers (.ofTables s.mem root) hd
    obtain ⟨s', hx, hmem⟩ := hx s rfl
    rw [hx, final_finish, hmem]
    have hle : k ≤ line.length := by
      cases hend with
      | done h => exact h.le
      | fault h => exact h.le
    exact h hu hr line hd k hle fun i hi => ((hk i).mpr hi).2 i (Nat.le_refl i)
  · obtain ⟨r, s', hx, hmem, -⟩ := syscallRead_other (T := .ofTables s.mem root) (not_exists.mp hd)
    rw [hx, final_finish, hmem]
    exact ⟨fun _ _ => rfl, rfl⟩

/-- A call that returns or waits does not panic; one that is to access a byte out of reach returns `-EFAULT`. -/
theorem noPanic_of_outcome {r : Except Stop U64} (hs : TrapSpares root own frame s)
    (h : outcome (runTrap (.ofTables s.mem root) kernel (n + 1) frame s) = trapOutcome frame r)
    (hr : r = .error .waiting ∨ ∃ v, r = .ok v)
    (hf : (∃ access va, HasToAccess frame s.rx access va ∧ ¬ (Translation.ofTables s.mem root).Allows access va) →
      r = .ok ERR_FAULT) : NoPanic root own kernel frame (n + 1) s := by
  refine ⟨fun r' hend => ?_, fun ha r' hend => ?_⟩
  · cases hend with
    | wild hn => exact absurd hs hn
    | runs =>
      rw [h]
      rcases hr with rfl | ⟨v, rfl⟩ <;> exact fun h => by cases h
  · cases hend with
    | wild hn => exact absurd hs hn
    | runs =>
      rw [h, hf ha]
      exact ⟨_, rfl, rfl, rfl⟩

theorem not_noPanic_of_fault {access : Access} {va : U64}
    (h : outcome (runTrap (.ofTables s.mem root) kernel (n + 1) frame s) =
        trapOutcome frame (.error (.fault access va))) :
    ¬ NoPanic root own kernel frame (n + 1) s := fun hn => hn.panic _ (.run ..) h

theorem NoPanic.spares (h : NoPanic root own kernel frame n s) : TrapSpares root own frame s := by
  by_contra hs
  exact h.panic _ (.wild hs) rfl

/-! ## System calls -/

theorem write_noPanic (hu : frame.isUserEcall) (hw : frame.a7 = SYSCALL_WRITE) (root : Addr) (own : Addr → Prop)
    (kernel : TrapFrame) (s : Hart) (n : Nat) : NoPanic root own kernel frame (n + 1) s ↔
      (IsOutput frame.a0 → WriteCaught (.ofTables s.mem root) frame.a1 frame.a2.toNat) := by
  have hs : TrapSpares root own frame s := .of_write hw
  by_cases hfd : IsOutput frame.a0
  swap
  · refine ⟨fun _ h => absurd h hfd, fun _ => ?_⟩
    have hx : syscallWrite (.ofTables s.mem root) frame.a0 frame.a1 frame.a2 s = finish (.ok ERR_BADF) s := by
      rw [syscallWrite_badf hfd]
      rfl
    refine noPanic_of_outcome hs (runTrap_syscall (write_handler hu hw) hx kernel n) (.inr ⟨_, rfl⟩) ?_
    rintro ⟨access, va, ⟨-, h, -⟩ | ⟨h, -⟩, -⟩
    · exact absurd h hfd
    · rw [hw] at h
      exact absurd h (by decide)
  obtain ⟨k, r, hsent, hend, hx⟩ := syscallWrite_ok (.ofTables s.mem root) hfd frame.a1 frame.a2
  have ho := runTrap_syscall (write_handler hu hw) (hx s) kernel n
  rw [imp_iff_right hfd, hend.caught_iff hsent]
  constructor
  · intro hn
    cases hend with
    | done | null => exact ⟨_, rfl⟩
    | fault i => exact absurd hn (not_noPanic_of_fault ho)
  · intro hr
    apply noPanic_of_outcome hs ho (.inr hr)
    rintro ⟨access, va, ⟨-, -, rfl, i, hi, rfl⟩ | ⟨h, -⟩, hf⟩
    · cases hend with
      | done hk => exact absurd ((hsent i).mpr (hk ▸ hi)).2 fun h => hf (h i hi (Nat.le_refl _)).1
      | null => rfl
      | fault => obtain ⟨v, hv⟩ := hr; cases hv
    · rw [hw] at h
      exact absurd h (by decide)

theorem read_noPanic (hu : frame.isUserEcall) (hr : frame.a7 = SYSCALL_READ) (root : Addr) (own : Addr → Prop)
    (kernel : TrapFrame) (s : Hart) (n : Nat) : NoPanic root own kernel frame (n + 1) s ↔
      ∀ line, Delivers frame.a0 frame.a1 frame.a2 s.rx line →
        (∀ i < line.length, (Translation.ofTables s.mem root).Allows .store (byteAddr frame.a1 i)) ∧
          Spares root own s.mem frame.a1 line := by
  have hnw : frame.a7 ≠ SYSCALL_WRITE := by rw [hr]; decide
  by_cases hd : ∃ line, Delivers frame.a0 frame.a1 frame.a2 s.rx line
  swap
  · refine ⟨fun _ line h => absurd ⟨line, h⟩ hd, fun _ => ?_⟩
    obtain ⟨r, s', hx, -, hr', hfault⟩ := syscallRead_other (T := .ofTables s.mem root) (not_exists.mp hd)
    refine noPanic_of_outcome (fun _ _ line h => absurd ⟨line, h⟩ hd)
      (runTrap_syscall (read_handler hu hr) hx kernel n) hr' ?_
    rintro ⟨access, va, ⟨h, -⟩ | ⟨-, h0, hl, -, line, hline, -⟩, -⟩
    · exact absurd h hnw
    · exact hfault h0 hl (by rw [hline]; rfl)
  obtain ⟨line, hd⟩ := hd
  obtain ⟨k, r, hk, hend, hx⟩ := syscallRead_delivers (.ofTables s.mem root) hd
  obtain ⟨s', hx, -⟩ := hx s rfl
  have ho := runTrap_syscall (read_handler hu hr) hx kernel n
  have hline (line' : List Byte) (h : lineOf frame.a2 s.rx = some line') : line' = line :=
    Option.some.inj (h.symm.trans hd.2.2.2)
  constructor
  · intro hn line' hd'
    refine ⟨fun i hi => ?_, hn.spares hu hr line' hd'⟩
    obtain rfl := hline line' hd'.2.2.2
    cases hend with
    | done hkl => exact ((hk i).mpr (hkl ▸ hi)).2 i (Nat.le_refl i)
    | fault => exact absurd hn (not_noPanic_of_fault ho)
  · intro hall
    cases hend with
    | done =>
      refine noPanic_of_outcome (fun _ _ line' hd' => (hall line' hd').2) ho (.inr ⟨_, rfl⟩) ?_
      rintro ⟨access, va, ⟨h, -⟩ | ⟨-, -, -, rfl, line', hl', i, hi, rfl⟩, hf⟩
      · exact absurd h hnw
      · exact absurd ((hall line hd).1 i (hline line' hl' ▸ hi)) hf
    | fault hlt hf => exact absurd ((hall line hd).1 k hlt) hf

/-! ## After a boot -/

section Boot

variable (B : UserBoot) {buffer : U64} {line : List Byte}

/-- A line stored to the program's own memory spares the kernel. -/
theorem UserBoot.spares (hs : SameKernel B.translation B.image.onBootStack B.loaded.mem s.mem)
    (hmay : ∀ i < line.length, B.translation.userMay .store (byteAddr buffer i) = true) :
    Spares B.root B.own s.mem buffer line := by
  refine (B.boots [] []).space.spares hs (fun pa hpa ⟨va, fl, ht, hu, _⟩ => ?_) fun i hi _ => hmay i hi
  have habove := B.user_above ht hu
  unfold UserBoot.own at hpa
  omega

theorem UserBoot.allows (hs : SameKernel B.translation B.image.onBootStack B.loaded.mem s.mem) {access : Access}
    {va : U64} (hmay : B.translation.userMay access va = true) :
    (Translation.ofTables s.mem B.root).Allows access va := by
  rw [(B.boots [] []).space.translation s.mem hs]
  exact allows_of_userMay hmay

/-- No call that has to access the program's own memory only panics. -/
theorem UserBoot.noPanic (hs : SameKernel B.translation B.image.onBootStack B.loaded.mem s.mem)
    (hu : frame.isUserEcall) (hcall : frame.a7 = SYSCALL_READ ∨ frame.a7 = SYSCALL_WRITE)
    (hmay : ∀ access va, HasToAccess frame s.rx access va → B.translation.userMay access va = true)
    (kernel : TrapFrame) (n : Nat) : NoPanic B.root B.own kernel frame (n + 1) s := by
  rcases hcall with hr | hw
  · rw [read_noPanic hu hr]
    intro line hd
    have hline : ∀ i < line.length, B.translation.userMay .store (byteAddr frame.a1 i) = true := fun i hi =>
      hmay _ _ (.inr ⟨hr, hd.1, hd.2.1, rfl, line, hd.2.2.2, i, hi, rfl⟩)
    exact ⟨fun i hi => B.allows hs (hline i hi), B.spares hs hline⟩
  · rw [write_noPanic hu hw]
    intro hfd i hi hf
    exact absurd (B.allows hs (hmay _ _ (.inl ⟨hw, hfd, rfl, i, hi, rfl⟩))) hf

end Boot

/-! ## Calls that do not panic -/

/-- A `write` or `read` does not panic exactly when every byte it has to access is
in reach, or comes after a null pointer check that fails, and a line that is stored
spares the kernel. -/
theorem syscall_noPanic (root : Addr) (own : Addr → Prop) (kernel frame : TrapFrame) (s : Hart) (n : Nat)
    (hu : frame.isUserEcall) (hcall : frame.a7 = SYSCALL_READ ∨ frame.a7 = SYSCALL_WRITE) :
    NoPanic root own kernel frame (n + 1) s ↔
      (frame.a7 = SYSCALL_WRITE → IsOutput frame.a0 →
        WriteCaught (.ofTables s.mem root) frame.a1 frame.a2.toNat) ∧
      (frame.a7 = SYSCALL_READ → ∀ line, Delivers frame.a0 frame.a1 frame.a2 s.rx line →
        (∀ i < line.length, (Translation.ofTables s.mem root).Allows .store (byteAddr frame.a1 i)) ∧
          Spares root own s.mem frame.a1 line) := by
  have hne : SYSCALL_READ ≠ SYSCALL_WRITE := by decide
  rcases hcall with h | h
  · rw [read_noPanic hu h]
    exact ⟨fun hr => ⟨fun hw => absurd (h.symm.trans hw) hne, fun _ => hr⟩, fun hr => hr.2 h⟩
  · rw [write_noPanic hu h]
    exact ⟨fun hw => ⟨fun _ => hw, fun hr => absurd (hr.symm.trans h) hne⟩, fun hw => hw.1 h⟩

/-- A line of three characters into the program's `.bss`, and a `write` of two chunks of its text. -/
theorem syscall_noPanic_sample : ∃ B : UserBoot, B.kernel.platform = samplePlatform ∧
    NoPanic B.root B.own (userCall 0 0 0 0) (userCall SYSCALL_READ 0 0x401000 64) 1
      { idleHart with mem := B.loaded.mem, rx := [0x61, 0x62, 0x7F, 0x63, 0x0A] } ∧
    NoPanic B.root B.own (userCall 0 0 0 0) (userCall SYSCALL_WRITE 1 0x400000 300) 1
      { idleHart with mem := B.loaded.mem } := by
  obtain ⟨B, -, hstart, hend, -, hplatform⟩ :=
    sample_userBoot (fun _ => 0) 0x80002064 (by decide) (by decide) (by decide)
  have hsize : imagePages (B.imageEnd - B.imageStart) = 1 := by
    rw [hstart, hend]
    decide
  have hs : SameKernel B.translation B.image.onBootStack B.loaded.mem B.loaded.mem := fun _ _ _ => rfl
  refine ⟨B, hplatform, (syscall_noPanic _ _ _ _ _ 0 (by decide) (.inl rfl)).mpr ⟨fun h => absurd h (by decide), ?_⟩,
    (syscall_noPanic _ _ _ _ _ 0 (by decide) (.inr rfl)).mpr ⟨?_, fun h => absurd h (by decide)⟩⟩
  · intro _ line hd
    have hline : lineOf 64 [0x61, 0x62, 0x7F, 0x63, 0x0A] = some [0x61, 0x63, 0x0A] := by decide
    obtain rfl : [0x61, 0x63, 0x0A] = line := Option.some.inj (hline.symm.trans hd.2.2.2)
    have hmay : ∀ i < 3, B.translation.userMay .store (byteAddr 0x401000 i) = true := fun i hi => by
      have haddr : (byteAddr 0x401000 i).toNat = 0x401000 + i :=
        toNat_byteAddr (show 0x401000 + i < 2 ^ 64 by omega)
      exact B.bss_may .store (by omega) (by omega)
    exact ⟨fun i hi => B.allows hs (hmay i hi), B.spares hs hmay⟩
  · intro _ _ i hi hf
    have hi : i < 300 := hi
    have haddr : (byteAddr 0x400000 i).toNat = 0x400000 + i :=
      toNat_byteAddr (show 0x400000 + i < 2 ^ 64 by omega)
    have hge : 0x400000 ≤ (byteAddr 0x400000 i).toNat := by omega
    obtain ⟨pa, ht⟩ := B.text_page hge (by rw [hsize]; omega)
    exact absurd (B.allows hs (userMay_iff.mpr ⟨pa, _, ht, by decide, by decide⟩)) hf

/-- A user process panics the kernel with a pointer that is not canonical. -/
theorem write_panics : ∃ B : UserBoot, B.kernel.platform = samplePlatform ∧
    ¬ NoPanic B.root B.own (userCall 0 0 0 0) (userCall SYSCALL_WRITE 1 0x4000000000 1) 1
      { idleHart with mem := B.loaded.mem } := by
  obtain ⟨B, -, -, -, -, hplatform⟩ := sample_userBoot (fun _ => 0) 0x80002064 (by decide) (by decide) (by decide)
  refine ⟨B, hplatform, fun hn => ?_⟩
  have haddr := byteAddr_zero 0x4000000000
  have hc := (write_noPanic (by decide) rfl _ _ _ _ 0).mp hn (.inl rfl) 0 (by decide) fun ⟨pa, fl, ht, _⟩ => by
    rw [show (userCall SYSCALL_WRITE 1 0x4000000000 1).a1 = 0x4000000000 from rfl, haddr] at ht
    cases ht
  obtain ⟨j, hj, hnull⟩ := hc
  obtain rfl : j = 0 := by omega
  rw [Nat.mul_zero] at hnull
  exact absurd hnull (by decide)

end RvOs
