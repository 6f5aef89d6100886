import RvOs.Proof.Write

/-!
# What `write` delivers

Each byte goes out as a string of one character, so a zero byte is counted
but not sent: `write` delivers a buffer of readable user memory exactly when it
has no zero byte, and no chunk at address 0 (`syscallWrite_delivers_iff`).
-/

namespace RvOs

open Exec

variable {T : Translation} {fd buffer length : U64} {s : Hart}

theorem UserReadable.allows (h : UserReadable T buffer length) {i : Nat} (hi : i < length.toNat) :
    T.Allows .load (byteAddr buffer i) := by
  obtain ⟨pa, fl, ht, -, hr⟩ := h i hi
  exact ⟨pa, fl, ht, by simp [sModeAllows, hr]⟩

theorem length_userBytes (m : Mem) (n : Nat) : (userBytes T m buffer n).length = n := by
  simp [userBytes]

/-- A zero byte among the bytes sent is dropped. -/
theorem filter_userBytes_iff (m : Mem) (n : Nat) :
    (userBytes T m buffer n).filter (· ≠ 0) = userBytes T m buffer n ↔
      ∀ i < n, m (T.phys (byteAddr buffer i)) ≠ 0 := by
  simp [userBytes, List.filter_eq_self]

/-- The outcome of a computation that writes a readable buffer. -/
theorem Writes.delivers_iff {x : Exec U64} (h : Writes T buffer length.toNat length x)
    (hr : UserReadable T buffer length) :
    (∃ s' sent, x s = .ok length s' ∧ s'.tx = s.tx ++ sent ∧ sent = userBytes T s.mem buffer length.toNat ∧
      sent.length = length.toNat) ↔
    (∀ i < length.toNat, s.mem (T.phys (byteAddr buffer i)) ≠ 0) ∧
      ∀ i < length.toNat, byteAddr buffer (256 * (i / 256)) ≠ 0 := by
  obtain ⟨k, r, hsent, hend, hx⟩ := h
  have hle := List.length_filter_le (· ≠ (0 : Byte)) (userBytes T s.mem buffer k)
  rw [length_userBytes] at hle
  rw [← filter_userBytes_iff]
  constructor
  · rintro ⟨s', sent, hs, htx, rfl, -⟩
    rw [hx] at hs
    have hout := congrArg outcome hs
    have hfin := congrArg (fun r => (final r).tx) hs
    simp only [outcome_finish, final_finish, afterCopy_tx] at hout hfin
    rw [show (final (.ok length s' : EStateM.Result Stop Hart U64)).tx = s'.tx from rfl, htx,
      List.append_cancel_left_eq] at hfin
    rw [hfin, length_userBytes] at hle
    have hk : k = length.toNat := by
      cases hend with
      | done h => exact h
      | null h => omega
      | fault i hi h => omega
    rw [hk] at hfin
    refine ⟨hfin, fun i hi => ?_⟩
    exact (((hsent i).mpr (by omega)).2 i hi (Nat.le_refl _)).2
  · rintro ⟨hz, hn⟩
    have hk : k = length.toNat := by
      refine Nat.le_antisymm (Nat.le_of_not_lt fun hlt => ?_) (Nat.le_of_not_lt fun hlt => ?_)
      · exact absurd ((hsent _).mpr hlt).1 (Nat.lt_irrefl _)
      · have := (hsent k).mp ⟨hlt, fun j hj _ => ⟨hr.allows hj, hn j hj⟩⟩
        omega
    subst hk
    have hr : r = .ok length := by
      cases hend with
      | done h => rfl
      | null h => omega
      | fault i hi h => omega
    subst hr
    refine ⟨_, _, hx s, rfl, hz, ?_⟩
    rw [hz, length_userBytes]

/-- A readable buffer is delivered exactly when it has no zero byte and no chunk at address 0. -/
theorem syscallWrite_delivers_iff (hfd : IsOutput fd) (hr : UserReadable T buffer length) :
    WriteDelivers T fd buffer length s ↔
      (∀ i < length.toNat, s.mem (T.phys (byteAddr buffer i)) ≠ 0) ∧
        ∀ i < length.toNat, byteAddr buffer (256 * (i / 256)) ≠ 0 :=
  (syscallWrite_ok T hfd buffer length).delivers_iff hr

/-- A user page at `0x401000`. -/
def onePage : Translation := fun va =>
  if va.toNat / 4096 = 0x401 then some (va + 0x7FC0F000, leafFlags (PTE_R ||| PTE_W ||| PTE_U)) else none

/-- A hart with zeroed memory. -/
def zeroHart : Hart := { mem := fun _ => 0, sstatus := 0, rx := [], tx := [] }

theorem onePage_readable {length : U64} (h : length.toNat ≤ 4096) : UserReadable onePage 0x401000 length := by
  intro i hi
  have haddr : (byteAddr 0x401000 i).toNat = 0x401000 + i := toNat_byteAddr (show 0x401000 + i < 2 ^ 64 by omega)
  exact ⟨_, _, if_pos (by omega), by decide, by decide⟩

/-- A buffer of two chunks, whose bytes differ. -/
theorem syscallWrite_delivers_sample :
    WriteDelivers onePage 1 0x401000 300 { zeroHart with mem := fun pa => pa.setWidth 8 ||| 0x40 } := by
  have hne : ∀ b : Byte, b ||| 0x40 ≠ 0 := by decide
  refine (syscallWrite_delivers_iff (.inl rfl) (onePage_readable (by decide))).mpr
    ⟨fun i _ => hne _, fun i hi hnull => ?_⟩
  have hi : i < 300 := hi
  have haddr : (byteAddr 0x401000 (256 * (i / 256))).toNat = 0x401000 + 256 * (i / 256) :=
    toNat_byteAddr (show 0x401000 + 256 * (i / 256) < 2 ^ 64 by omega)
  have hzero : (byteAddr 0x401000 (256 * (i / 256))).toNat = 0 := congrArg BitVec.toNat hnull
  omega

/-- One zero byte is counted and not sent. -/
theorem write_drops_zero :
    IsOutput 1 ∧ UserReadable onePage 0x401000 1 ∧ ¬ WriteDelivers onePage 1 0x401000 1 zeroHart := by
  refine ⟨.inl rfl, onePage_readable (by decide), fun h => ?_⟩
  have hz := (((syscallWrite_ok onePage (.inl rfl) 0x401000 1).delivers_iff (onePage_readable (by decide))).mp h).1
  exact hz 0 (by decide) rfl

end RvOs
