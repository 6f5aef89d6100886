import RvOs.Spec.UserMemory

/-!
# Copies from and to user memory

What `copy_from_user` and `copy_to_user` do, by the bytes of the range that are
in reach: the copy if all are (`copyFromUser_ok`, `copyToUser_ok`), else a page
fault at the first that is not.
-/

namespace RvOs

open Exec

variable {T : Translation} {access : Access} {va buffer : U64} {s : Hart}

theorem byteAddr_zero (buffer : U64) : byteAddr buffer 0 = buffer := by
  have h : ∀ x : U64, x + 0 = x := BitVec.add_zero
  exact h buffer

theorem byteAddr_add (buffer : U64) (i j : Nat) : byteAddr (byteAddr buffer i) j = byteAddr buffer (i + j) := by
  rw [byteAddr, byteAddr, byteAddr, BitVec.add_assoc, ← BitVec.ofNat_add]

theorem toNat_byteAddr {i : Nat} (h : buffer.toNat + i < 2 ^ 64) : (byteAddr buffer i).toNat = buffer.toNat + i := by
  rw [byteAddr, BitVec.toNat_add, BitVec.toNat_ofNat]
  omega

theorem sum_set (sstatus : U64) : hasFlag (sstatus ||| SSTATUS_SUM) SSTATUS_SUM = true := by
  have h : (sstatus ||| SSTATUS_SUM) &&& SSTATUS_SUM = SSTATUS_SUM := by
    ext i hi
    simp only [BitVec.getElem_and, BitVec.getElem_or]
    cases sstatus[i] <;> cases SSTATUS_SUM[i] <;> rfl
  rw [hasFlag, h]
  decide

theorem sModeAddr_allowed (hs : hasFlag s.sstatus SSTATUS_SUM = true) (h : T.Allows access va) :
    sModeAddr T s.sstatus access va = some (T.phys va) := by
  obtain ⟨pa, fl, ht, ha⟩ := h
  rw [sModeAddr, ht, Translation.phys, ht]
  exact if_pos (hs.symm ▸ ha)

theorem sModeAddr_denied (hs : hasFlag s.sstatus SSTATUS_SUM = true) (h : ¬ T.Allows access va) :
    sModeAddr T s.sstatus access va = none := by
  rw [sModeAddr]
  split
  · rfl
  · rename_i pa fl ht
    rw [hs]
    exact if_neg fun ha => h ⟨pa, fl, ht, ha⟩

theorem loadBytes_ok (hs : hasFlag s.sstatus SSTATUS_SUM = true) {n : Nat}
    (h : ∀ i < n, T.Allows .load (byteAddr buffer i)) :
    loadBytes T buffer n s = .ok (userBytes T s.mem buffer n) s := by
  induction n with
  | zero => rfl
  | succ n ih =>
    have hl : load8 T (byteAddr buffer n) s = .ok (s.mem (T.phys (byteAddr buffer n))) s := by
      rw [load8, sModeAddr_allowed hs (h n (by omega))]
    rw [loadBytes, bind_ok (ih fun i hi => h i (by omega))]
    refine (bind_ok hl).trans ?_
    rw [userBytes, userBytes, List.range_succ, List.map_append]
    rfl

theorem loadBytes_fault (hs : hasFlag s.sstatus SSTATUS_SUM = true) {n i : Nat} (hi : i < n)
    (h : ∀ j < i, T.Allows .load (byteAddr buffer j)) (hf : ¬ T.Allows .load (byteAddr buffer i)) :
    loadBytes T buffer n s = .error (.fault .load (byteAddr buffer i)) s := by
  induction n with
  | zero => omega
  | succ n ih =>
    rw [loadBytes]
    by_cases hin : i < n
    · exact bind_error (ih hin)
    · obtain rfl : i = n := by omega
      have hl : load8 T (byteAddr buffer i) s = .error (.fault .load (byteAddr buffer i)) s := by
        rw [load8, sModeAddr_denied hs hf]
      rw [bind_ok (loadBytes_ok hs h)]
      exact bind_error hl

theorem storeBytes_ok (src : List Byte) (hs : hasFlag s.sstatus SSTATUS_SUM = true) {n : Nat}
    (h : ∀ i < n, T.Allows .store (byteAddr buffer i)) :
    storeBytes T buffer src n s = .ok () { s with mem := storedMem T s.mem buffer src n } := by
  induction n with
  | zero => rfl
  | succ n ih =>
    rw [storeBytes, bind_ok (ih fun i hi => h i (by omega))]
    show store8 T (byteAddr buffer n) (src.getD n 0) _ = _
    rw [store8]
    have ha := sModeAddr_allowed (s := { s with mem := storedMem T s.mem buffer src n }) hs (h n (by omega))
    simp only at ha
    rw [ha]
    rfl

theorem storeBytes_fault (src : List Byte) (hs : hasFlag s.sstatus SSTATUS_SUM = true) {n i : Nat} (hi : i < n)
    (h : ∀ j < i, T.Allows .store (byteAddr buffer j)) (hf : ¬ T.Allows .store (byteAddr buffer i)) :
    storeBytes T buffer src n s =
      .error (.fault .store (byteAddr buffer i)) { s with mem := storedMem T s.mem buffer src i } := by
  induction n with
  | zero => omega
  | succ n ih =>
    rw [storeBytes]
    by_cases hin : i < n
    · exact bind_error (ih hin)
    · obtain rfl : i = n := by omega
      rw [bind_ok (storeBytes_ok src hs h)]
      show store8 T (byteAddr buffer i) (src.getD i 0) _ = _
      rw [store8]
      have ha := sModeAddr_denied (s := { s with mem := storedMem T s.mem buffer src i }) hs hf
      simp only at ha
      rw [ha]

/-- The state in which a copy accesses user memory. -/
def Hart.withSum (s : Hart) : Hart := { s with sstatus := s.sstatus ||| SSTATUS_SUM }

section WithSum

variable {α β : Type} {access : Exec α} (f : α → β)

/-- An access to user memory, with `sstatus` put back after it. -/
theorem withSum_ok {x : α} {s' : Hart} (h : access s.withSum = .ok x s') :
    (do let oldStatus ← csrReadSstatus
        csrWriteSstatus (oldStatus ||| SSTATUS_SUM)
        let out ← access
        csrWriteSstatus oldStatus
        return f out : Exec β) s = .ok (f x) { s' with sstatus := s.sstatus } := by
  show (access >>= fun out => do csrWriteSstatus s.sstatus; return f out) s.withSum = _
  exact bind_ok h

theorem withSum_fault {stop : Stop} {s' : Hart} (h : access s.withSum = .error stop s') :
    (do let oldStatus ← csrReadSstatus
        csrWriteSstatus (oldStatus ||| SSTATUS_SUM)
        let out ← access
        csrWriteSstatus oldStatus
        return f out : Exec β) s = .error stop s' := by
  show (access >>= fun out => do csrWriteSstatus s.sstatus; return f out) s.withSum = _
  exact bind_error h

end WithSum

theorem copyFromUser_null {size : U64} (h : size ≠ 0) : copyFromUser T 0 size s = .ok none s := by
  rw [copyFromUser, if_pos ⟨rfl, h⟩]
  rfl

theorem copyFromUser_ok {size : U64} (hb : buffer ≠ 0) (h : ∀ i < size.toNat, T.Allows .load (byteAddr buffer i)) :
    copyFromUser T buffer size s = .ok (some (userBytes T s.mem buffer size.toNat)) s := by
  rw [copyFromUser, if_neg fun hn => hb hn.1]
  refine (withSum_ok some (loadBytes_ok (sum_set _) h)).trans ?_
  rfl

theorem copyFromUser_fault {size : U64} (hb : buffer ≠ 0) {i : Nat} (hi : i < size.toNat)
    (h : ∀ j < i, T.Allows .load (byteAddr buffer j)) (hf : ¬ T.Allows .load (byteAddr buffer i)) :
    copyFromUser T buffer size s = .error (.fault .load (byteAddr buffer i)) s.withSum := by
  rw [copyFromUser, if_neg fun hn => hb hn.1]
  exact withSum_fault some (loadBytes_fault (sum_set _) hi h hf)

theorem copyToUser_null {src : List Byte} {size : U64} (h : size ≠ 0) : copyToUser T 0 src size s = .ok false s := by
  rw [copyToUser, if_pos ⟨rfl, h⟩]
  rfl

theorem copyToUser_ok {src : List Byte} {size : U64} (hb : buffer ≠ 0)
    (h : ∀ i < size.toNat, T.Allows .store (byteAddr buffer i)) : copyToUser T buffer src size s =
      .ok true { s with mem := storedMem T s.mem buffer src size.toNat } := by
  rw [copyToUser, if_neg fun hn => hb hn.1]
  refine (withSum_ok (fun _ => true) (storeBytes_ok src (sum_set _) h)).trans ?_
  rfl

theorem copyToUser_fault {src : List Byte} {size : U64} (hb : buffer ≠ 0) {i : Nat} (hi : i < size.toNat)
    (h : ∀ j < i, T.Allows .store (byteAddr buffer j)) (hf : ¬ T.Allows .store (byteAddr buffer i)) :
    copyToUser T buffer src size s = .error (.fault .store (byteAddr buffer i))
      { s.withSum with mem := storedMem T s.mem buffer src i } := by
  rw [copyToUser, if_neg fun hn => hb hn.1]
  exact withSum_fault (fun _ => true) (storeBytes_fault src (sum_set _) hi h hf)

/-- A range is in reach, or its first byte out of reach is. -/
theorem allows_or_first (T : Translation) (access : Access) (buffer : U64) (n : Nat) :
    (∀ i < n, T.Allows access (byteAddr buffer i)) ∨ ∃ i < n,
      (∀ j < i, T.Allows access (byteAddr buffer j)) ∧ ¬ T.Allows access (byteAddr buffer i) :=
  forall_lt_or_first (fun i => T.Allows access (byteAddr buffer i)) n

end RvOs
