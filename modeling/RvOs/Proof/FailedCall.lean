import RvOs.Proof.Read
import RvOs.Proof.TrapHandler
import RvOs.Proof.Write
import RvOs.Spec.FailedCall

/-!
# System calls that fail with side effects

`read` receives and sends a whole line before it looks at its pointer, and
`write` sends every chunk before it looks at the next one. The other failing
calls do nothing (`syscall_failsCleanly_iff`).
-/

namespace RvOs

open Exec

variable {T : Translation} {frame : TrapFrame} {fd buffer length : U64} {s : Hart} {m : Mem} {root : Addr}

/-! ## The result of a call -/

/-- An error leaves the state as it was. -/
def ErrorsKeep (x : Exec U64) (s : Hart) : Prop := ∀ a0 s', x s = .ok a0 s' → IsError a0 → s' = s

theorem ErrorsKeep.of_error {x : Exec U64} {e : Stop} {s' : Hart} (h : x s = .error e s') : ErrorsKeep x s := by
  intro a0 s'' he
  rw [h] at he
  cases he

theorem errorsKeep_of_ok {x : Exec U64} {a0 : U64} {s' : Hart} (h : x s = .ok a0 s') :
    ErrorsKeep x s ↔ (IsError a0 → s' = s) := by
  refine ⟨fun hx => hx a0 s' h, fun hs a0' s'' he => ?_⟩
  rw [h] at he
  cases he
  exact hs

theorem errorsKeep_pure (a0 : U64) (s : Hart) : ErrorsKeep (pure a0) s := (errorsKeep_of_ok rfl).mpr fun _ => rfl

/-- A call that puts the result of `x` into the frame. -/
theorem failsCleanly_of_eq {x : Exec U64}
    (h : syscallHandle T frame s = (do return { frame with a0 := ← x, epc := frame.epc + 4 } : Exec TrapFrame) s) :
    FailsCleanly T frame s ↔ ErrorsKeep x s := by
  cases hx : x s with
  | error e s' =>
    rw [bind_error hx] at h
    refine iff_of_true (fun frame' s'' he => ?_) (.of_error hx)
    rw [h] at he
    cases he
  | ok a0 s' =>
    rw [bind_ok hx] at h
    rw [errorsKeep_of_ok hx]
    refine ⟨fun hc herr => ?_, fun hc frame' s'' he herr => ?_⟩
    · obtain ⟨-, hrx, htx, hmem, hsum⟩ := hc _ _ h herr
      cases s
      cases s'
      cases hrx
      cases htx
      cases hmem
      cases hsum
      rfl
    · rw [h] at he
      cases he
      rw [hc herr]
      exact ⟨rfl, rfl, rfl, rfl, rfl⟩

/-! ## `read` -/

/-- A line takes at least one character of what is received. -/
theorem editLine_rest {limit : Nat} {line rest : List Byte} : ∀ {rx temp : List Byte},
    editLine limit rx temp = some (line, rest) →
    rest.length ≤ rx.length ∧ (temp.length < limit → rest.length < rx.length) := by
  intro rx
  induction rx with
  | nil =>
    intro temp h
    rw [editLine] at h
    split at h
    · cases h
    · cases h
      exact ⟨Nat.le_refl _, fun hl => absurd hl ‹_›⟩
  | cons c rx ih =>
    intro temp h
    rw [editLine] at h
    rw [List.length_cons]
    split_ifs at h with hl hd hn
    · have := (ih h).1
      omega
    · cases h
      omega
    · have := (ih h).1
      omega
    · cases h
      exact ⟨Nat.le_refl _, fun hl' => absurd hl' hl⟩

theorem not_isError {n : Nat} (hn : n < 2 ^ 64 - 38) : ¬ IsError (BitVec.ofNat 64 n) := by
  have h (e : U64) (he : 2 ^ 64 - 38 ≤ e.toNat) : BitVec.ofNat 64 n ≠ e := by
    rintro rfl
    rw [BitVec.toNat_ofNat] at he
    omega
  rintro (he | he | he)
  · exact h _ (by decide) he
  · exact h _ (by decide) he
  · exact h _ (by decide) he

/-- A call that gets as far as storing a line does not return an error. -/
theorem Delivers.errorsKeep {line : List Byte} (h : Delivers fd buffer length s.rx line) :
    ErrorsKeep (syscallRead T fd buffer length) s := by
  obtain ⟨k, r, -, hend, hr⟩ := syscallRead_delivers T h
  obtain ⟨s', he, -⟩ := hr s rfl
  cases hend with
  | done =>
    have hle := (lineOf_length h.2.1 h.2.2.2).2
    exact (errorsKeep_of_ok he).mpr fun herr => absurd herr (not_isError (by omega))
  | fault => exact .of_error he

/-- With a null pointer the line is lost. -/
theorem read_null {line rest : List Byte} (hl : length ≠ 0)
    (h : editLine (min length.toNat 256) s.rx [] = some (line, rest)) :
    ∃ tx, syscallRead T 0 0 length s = .ok ERR_FAULT { s with rx := rest, tx := tx } := by
  obtain ⟨tx, hloop⟩ := readLoop_ok (readCap length) s.rx [] (s.rx.length + 1) s rfl (Nat.lt_succ_self _)
  rw [readLength, h] at hloop
  have hline : lineOf length s.rx = some line := by rw [lineOf, h, Option.map_some]
  exact ⟨tx, (syscallRead_line T 0 hl hloop).trans (bind_ok (copyToUser_null (lineOf_ne_zero hl hline)))⟩

theorem read_errorsKeep (T : Translation) (fd buffer length : U64) (s : Hart) :
    ErrorsKeep (syscallRead T fd buffer length) s ↔
      ¬ (fd = 0 ∧ buffer = 0 ∧ length ≠ 0 ∧ (lineOf length s.rx).isSome) := by
  by_cases hfd : fd = 0
  swap
  · rw [syscallRead_badf T hfd]
    exact iff_of_true (errorsKeep_pure _ s) fun h => hfd h.1
  subst hfd
  by_cases hl : length = 0
  · rw [hl, syscallRead_zero]
    exact iff_of_true (errorsKeep_pure _ s) fun h => h.2.2.1 rfl
  cases hline : lineOf length s.rx with
  | none =>
    obtain ⟨rest, tx, he⟩ := syscallRead_eq T buffer hl s
    rw [hline] at he
    exact iff_of_true (.of_error he) fun h => absurd h.2.2.2 (by decide)
  | some line =>
    by_cases hb : buffer = 0
    swap
    · exact iff_of_true (Delivers.errorsKeep ⟨rfl, hl, hb, hline⟩) fun h => hb h.2.1
    subst hb
    refine iff_of_false ?_ (not_not.mpr ⟨rfl, rfl, hl, rfl⟩)
    obtain ⟨⟨line', rest⟩, he, -⟩ := Option.map_eq_some_iff.mp hline
    obtain ⟨tx, hread⟩ := read_null (T := T) hl he
    rw [errorsKeep_of_ok hread]
    intro h
    have hlt := (editLine_rest he).2 (by
      have : length.toNat ≠ 0 := fun h0 => hl (BitVec.eq_of_toNat_eq h0)
      rw [List.length_nil]
      omega)
    have hrx := congrArg Hart.rx (h (.inr (.inl rfl)))
    exact absurd (congrArg List.length hrx) (Nat.ne_of_lt hlt)

/-! ## `write` -/

/-- The bytes sent before a chunk at address 0. -/
theorem sent_wraps {k n : Nat} (hk : k < n) (hk64 : k < 2 ^ 64) (hchunk : k % 256 = 0) (hnull : byteAddr buffer k = 0)
    (h : ∀ i < k, T.Allows .load (byteAddr buffer i)) (i : Nat) : Sent T buffer n i ↔ i < k := by
  refine ⟨fun hs => ?_, fun hi => ⟨by omega, fun j hj hji => ⟨h j (by omega), fun h0 => ?_⟩⟩⟩
  · by_contra hik
    have hs := (hs.2 k hk (by omega)).2
    rw [show 256 * (k / 256) = k by omega] at hs
    exact hs hnull
  · rw [← hnull, byteAddr, byteAddr, BitVec.add_right_inj, ← BitVec.toNat_inj, BitVec.toNat_ofNat,
      BitVec.toNat_ofNat] at h0
    omega

/-- No Sv39 mapping has all bytes of a buffer that long. -/
theorem sv39_length {n : Nat} (h : ∀ i < n, (Translation.ofTables m root).Allows .load (byteAddr buffer i)) :
    n < 2 ^ 64 - 38 := by
  by_contra hn
  have hnone (va : U64) (hva : ¬ Canonical va) : ¬ (Translation.ofTables m root).Allows .load va := by
    rintro ⟨pa, fl, ht, -⟩
    have hnone : Translation.ofTables m root va = none := if_neg hva
    rw [hnone] at ht
    cases ht
  have haddr (x : U64) : byteAddr buffer (x - buffer).toNat = x := by
    rw [byteAddr, BitVec.ofNat_toNat, BitVec.setWidth_eq, BitVec.add_comm, BitVec.sub_add_cancel]
  -- one of these two addresses that are not canonical is in the buffer
  by_cases hi : (0x4000001000 - buffer).toNat < n
  · exact hnone _ (by decide) (haddr 0x4000001000 ▸ h _ hi)
  · refine hnone _ (by decide) (haddr 0x4000000000 ▸ h (0x4000000000 - buffer).toNat ?_)
    rw [BitVec.toNat_sub] at hi ⊢
    change ¬ (2 ^ 64 - buffer.toNat + 0x4000001000) % 2 ^ 64 < n at hi
    show (2 ^ 64 - buffer.toNat + 0x4000000000) % 2 ^ 64 < n
    omega

theorem filter_userBytes_eq_nil {n : Nat} : (userBytes T m buffer n).filter (· ≠ 0) = [] ↔
    ¬ ∃ i < n, m (T.phys (byteAddr buffer i)) ≠ 0 := by
  rw [List.filter_eq_nil_iff, userBytes]
  simp

/-- The chunk is where `write` ends. -/
theorem wraps_iff {k : Nat} (hsent : ∀ i, Sent T buffer length.toNat i ↔ i < k) :
    Wraps T buffer length.toNat m ↔ k < length.toNat ∧ k % 256 = 0 ∧ byteAddr buffer k = 0 ∧
      ∃ i < k, m (T.phys (byteAddr buffer i)) ≠ 0 := by
  refine ⟨?_, fun ⟨hk, hchunk, hnull, i, hi, hne⟩ => ?_⟩
  · rintro ⟨k', -, hk, hchunk, hnull, hall, hne⟩
    have hsent' := sent_wraps hk (by have := length.isLt; omega) hchunk hnull hall
    have hkk (i : Nat) : i < k ↔ i < k' := (hsent i).symm.trans (hsent' i)
    obtain rfl : k = k' := by
      have := hkk k
      have := hkk k'
      omega
    exact ⟨hk, hchunk, hnull, hne⟩
  · refine ⟨k, by omega, hk, hchunk, hnull, fun j hj => ?_, i, hi, hne⟩
    exact (((hsent j).mpr hj).2 j (by omega) (Nat.le_refl _)).1

theorem write_errorsKeep (hfd : IsOutput fd) :
    ErrorsKeep (syscallWrite (Translation.ofTables m root) fd buffer length) s ↔
      ¬ Wraps (Translation.ofTables m root) buffer length.toNat s.mem := by
  obtain ⟨k, r, hsent, hend, hx⟩ := syscallWrite_ok (Translation.ofTables m root) hfd buffer length
  have hx := hx s
  rw [wraps_iff hsent]
  cases hend with
  | done hk =>
    have hn := sv39_length fun i hi => (((hsent i).mpr (hk ▸ hi)).2 i hi (Nat.le_refl _)).1
    have herr : ¬ IsError length := by
      have := not_isError hn
      rwa [BitVec.ofNat_toNat, BitVec.setWidth_eq] at this
    exact iff_of_true ((errorsKeep_of_ok hx).mpr fun h => absurd h herr) fun h => absurd hk (Nat.ne_of_lt h.1)
  | null hk hchunk hnull =>
    rw [errorsKeep_of_ok hx, and_iff_right hk, and_iff_right hchunk, and_iff_right hnull, ← filter_userBytes_eq_nil]
    refine ⟨fun h => ?_, fun h _ => ?_⟩
    · have htx := congrArg Hart.tx (h (.inr (.inl rfl)))
      exact List.append_cancel_left (htx.trans (List.append_nil _).symm)
    · rw [h, List.append_nil]
      rfl
  | fault i hi hlt hchunk hik hk hf => exact iff_of_true (.of_error hx) fun h => hk h.2.2.1

/-! ## Every call -/

/-- A failed call does nothing, unless it is a `read` to a null pointer that gets
a line, or a `write` past the last address. -/
theorem syscall_failsCleanly_iff (m : Mem) (root : Addr) (frame : TrapFrame) (s : Hart) :
    FailsCleanly (Translation.ofTables m root) frame s ↔
      ¬ ReadNull frame s.rx ∧ ¬ WriteWraps (Translation.ofTables m root) frame s.mem := by
  by_cases hr : frame.a7 = SYSCALL_READ
  · have hw : frame.a7 ≠ SYSCALL_WRITE := by
      rw [hr]
      decide
    rw [failsCleanly_of_eq (congrFun (if_pos hr) s), read_errorsKeep, ReadNull, and_iff_right hr,
      and_iff_left fun h => hw h.1]
  have hread : ¬ ReadNull frame s.rx := fun h => hr h.1
  rw [and_iff_right hread]
  by_cases hw : frame.a7 = SYSCALL_WRITE
  · rw [failsCleanly_of_eq ((congrFun (if_neg hr) s).trans (congrFun (if_pos hw) s)), WriteWraps, and_iff_right hw]
    by_cases hfd : IsOutput frame.a0
    · rw [write_errorsKeep hfd, and_iff_right hfd]
    · refine iff_of_true ?_ fun h => hfd h.1
      rw [syscallWrite_badf hfd]
      exact errorsKeep_pure _ s
  have hwrite : ¬ WriteWraps (Translation.ofTables m root) frame s.mem := fun h => hw h.1
  refine iff_of_true ?_ hwrite
  intro frame' s' he _
  rw [syscallHandle, if_neg hr, if_neg hw] at he
  obtain ⟨s'', hexit⟩ := syscallExit_ok (α := TrapFrame) frame.a0 s
  by_cases he₁ : frame.a7 = SYSCALL_EXIT
  · rw [if_pos he₁, hexit] at he
    cases he
  by_cases he₂ : frame.a7 = SYSCALL_EXIT_GROUP
  · rw [if_neg he₁, if_pos he₂, hexit] at he
    cases he
  rw [if_neg he₁, if_neg he₂] at he
  cases he
  exact ⟨rfl, rfl, rfl, rfl, rfl⟩

/-- `read` of one byte to a null pointer receives a newline and returns an error. -/
theorem read_fails_uncleanly :
    ¬ FailsCleanly (Translation.ofTables (fun _ => 0) 0)
        (userCall SYSCALL_READ 0 0 1) { idleHart with rx := [0x0A] } := by
  rw [failsCleanly_of_eq rfl, read_errorsKeep]
  exact not_not.mpr ⟨rfl, rfl, by decide, by decide⟩

end RvOs
