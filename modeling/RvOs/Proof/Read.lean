import RvOs.Proof.LoadCorrect
import RvOs.Proof.UserCopy

/-!
# `read`

The loop of `syscall_read` is the line editor (`readLoop_ok`), and what it
stores is the line, up to the first byte of the buffer out of reach. So memory
changes in user pages only exactly when the bytes stored to are in some
(`syscallRead_integrity`): the pointer is checked for null only, and S-mode
may write the kernel's own pages.
-/

namespace RvOs

open Exec

variable {T : Translation} {fd buffer length : U64} {rx line : List Byte} {s : Hart}

/-! ## The line -/

/-- A character erased or added, with what is sent for it. -/
theorem readLoop_cons {c : Byte} {temp : List Byte} (hl : temp.length < length.toNat) (hs : s.rx = c :: rx) (n : Nat) :
    readLoop length (n + 1) temp s =
      if normalize c = 0x08 ∨ normalize c = 0x7F then
        if 0 < temp.length then
          readLoop length n temp.dropLast { s with rx := rx, tx := s.tx ++ [0x08] ++ [0x20] ++ [0x08] }
        else readLoop length n temp { s with rx := rx }
      else if normalize c = 0x0A then .ok (temp ++ [normalize c]) { s with rx := rx, tx := s.tx ++ [normalize c] }
      else readLoop length n (temp ++ [normalize c]) { s with rx := rx, tx := s.tx ++ [normalize c] } := by
  have hget : uartGetc s = .ok c { s with rx := rx } := by rw [uartGetc, hs]
  rw [readLoop, if_pos hl, bind_ok hget]
  change (if normalize c = 0x08 ∨ normalize c = 0x7F then _ else _ : Exec (List Byte)) _ = _
  by_cases hd : normalize c = 0x08 ∨ normalize c = 0x7F
  · rw [if_pos hd, if_pos hd]
    split <;> rfl
  · rw [if_neg hd, if_neg hd]
    have hput : uartPutc (normalize c) { s with rx := rx } =
      .ok () { s with rx := rx, tx := s.tx ++ [normalize c] } := rfl
    refine (bind_ok hput).trans ?_
    by_cases hn : normalize c = 0x0A
    · rw [if_pos hn]
      exact congrFun (if_pos hn) _
    · rw [if_neg hn]
      exact congrFun (if_neg hn) _

theorem normalize_erases (c : Byte) : normalize c = 0x08 ∨ normalize c = 0x7F ↔ c = 0x08 ∨ c = 0x7F := by
  rw [normalize]
  split
  · rename_i h
    rw [h]
    decide
  · rfl

/-- The loop is the editor. -/
theorem readLoop_ok (length : U64) (rx : List Byte) : ∀ (temp : List Byte) (fuel : Nat) (s : Hart), s.rx = rx →
    rx.length < fuel → ∃ tx, readLoop length fuel temp s =
      match editLine length.toNat rx temp with
      | some (line, rest) => .ok line { s with rx := rest, tx := tx }
      | none => .error .waiting { s with rx := [], tx := tx } := by
  induction rx with
  | nil =>
    intro temp fuel s hs hf
    obtain ⟨n, rfl⟩ := Nat.exists_eq_succ_of_ne_zero (Nat.ne_of_gt hf)
    have hs' : ({ s with rx := [] } : Hart) = s := by rw [← hs]
    refine ⟨s.tx, ?_⟩
    rw [readLoop, editLine, hs']
    by_cases hl : temp.length < length.toNat
    · have hget : uartGetc s = .error .waiting s := by rw [uartGetc, hs]
      rw [if_pos hl, if_pos hl]
      exact bind_error hget
    · rw [if_neg hl, if_neg hl]
      exact congrArg (EStateM.Result.ok temp) hs'.symm
  | cons c rx ih =>
    intro temp fuel s hs hf
    obtain ⟨n, rfl⟩ := Nat.exists_eq_succ_of_ne_zero (Nat.ne_of_gt (Nat.zero_lt_of_lt hf))
    have hf' : rx.length < n := Nat.lt_of_succ_lt_succ hf
    rw [editLine]
    by_cases hl : temp.length < length.toNat
    swap
    · refine ⟨s.tx, ?_⟩
      rw [readLoop, if_neg hl, if_neg hl, ← hs]
      rfl
    rw [readLoop_cons hl hs, if_pos hl]
    simp only [normalize_erases]
    split_ifs with hd ht hn
    · exact ih _ _ _ rfl hf'
    · have hnil : temp = [] := List.eq_nil_of_length_eq_zero (Nat.eq_zero_of_not_pos ht)
      rw [hnil]
      exact ih _ _ _ rfl hf'
    · exact ⟨_, rfl⟩
    · exact ih _ _ _ rfl hf'

/-- A line has at least one character and at most `limit`. -/
theorem editLine_length {limit : Nat} (h0 : 0 < limit) : ∀ {rx temp rest : List Byte}, temp.length ≤ limit →
    editLine limit rx temp = some (line, rest) → 0 < line.length ∧ line.length ≤ limit := by
  intro rx
  induction rx with
  | nil =>
    intro temp rest ht h
    rw [editLine] at h
    split at h
    · cases h
    · cases h
      omega
  | cons c rx ih =>
    intro temp rest ht h
    rw [editLine] at h
    split_ifs at h with hl hd hn
    · exact ih (by rw [List.length_dropLast]; omega) h
    · cases h
      rw [List.length_append, List.length_singleton]
      omega
    · exact ih (by rw [List.length_append, List.length_singleton]; omega) h
    · cases h
      omega

/-! ## The call -/

theorem lineOf_length (hl : length ≠ 0) (h : lineOf length rx = some line) : 0 < line.length ∧ line.length ≤ 256 := by
  obtain ⟨⟨line', rest⟩, he, rfl⟩ := Option.map_eq_some_iff.mp h
  have h0 : length.toNat ≠ 0 := fun h0 => hl (BitVec.eq_of_toNat_eq h0)
  obtain ⟨hpos, hle⟩ := editLine_length (by omega) (Nat.zero_le _) he
  exact ⟨hpos, hle.trans (Nat.min_le_right ..)⟩

theorem lineOf_ne_zero (hl : length ≠ 0) (h : lineOf length rx = some line) : BitVec.ofNat 64 line.length ≠ 0 := by
  obtain ⟨hpos, hle⟩ := lineOf_length hl h
  intro h0
  have h0 := congrArg BitVec.toNat h0
  rw [BitVec.toNat_ofNat] at h0
  change _ = 0 at h0
  omega

/-- The size that the loop reads up to. -/
abbrev readCap (length : U64) : U64 := if length > tempSize then tempSize else length

/-- `length`, capped at the size of `temp`. -/
theorem readLength (length : U64) : (readCap length).toNat = min length.toNat 256 := by
  have h256 : tempSize.toNat = 256 := rfl
  rw [readCap]
  split
  · rename_i h
    have hlt : tempSize.toNat < length.toNat := h
    omega
  · rename_i h
    have hle : ¬ tempSize.toNat < length.toNat := h
    omega

theorem syscallRead_badf (T : Translation) (hfd : fd ≠ 0) (buffer length : U64) :
    syscallRead T fd buffer length = pure ERR_BADF := by
  rw [syscallRead, if_pos hfd]

theorem syscallRead_zero (T : Translation) (buffer : U64) : syscallRead T 0 buffer 0 = pure 0 := by
  rw [syscallRead, if_neg (not_not.mpr rfl), if_pos rfl]

section Loop

variable {s' : Hart} (T : Translation) (buffer : U64) (hl : length ≠ 0)

include hl

/-- A call whose loop waits, -/
theorem syscallRead_error {e : Stop} (h : readLoop (readCap length) (s.rx.length + 1) [] s = .error e s') :
    syscallRead T 0 buffer length s = .error e s' := by
  rw [syscallRead, if_neg (not_not.mpr rfl), if_neg hl]
  exact bind_error h

/-- and one whose loop returns a line, which is then copied. -/
theorem syscallRead_line (h : readLoop (readCap length) (s.rx.length + 1) [] s = .ok line s') :
    syscallRead T 0 buffer length s = (do
      if ← copyToUser T buffer line (BitVec.ofNat 64 line.length) then return BitVec.ofNat 64 line.length
      else return ERR_FAULT : Exec U64) s' := by
  rw [syscallRead, if_neg (not_not.mpr rfl), if_neg hl]
  exact bind_ok h

/-- The line is read, then copied. -/
theorem syscallRead_eq (s : Hart) : ∃ rest tx, syscallRead T 0 buffer length s =
    match lineOf length s.rx with
    | none => .error .waiting { s with rx := [], tx := tx }
    | some line => (do
        if ← copyToUser T buffer line (BitVec.ofNat 64 line.length) then return BitVec.ofNat 64 line.length
        else return ERR_FAULT : Exec U64) { s with rx := rest, tx := tx } := by
  obtain ⟨tx, h⟩ := readLoop_ok (readCap length) s.rx [] (s.rx.length + 1) s rfl (Nat.lt_succ_self _)
  rw [readLength] at h
  rw [lineOf]
  cases he : editLine (min length.toNat 256) s.rx [] with
  | none =>
    rw [he] at h
    exact ⟨[], tx, syscallRead_error T buffer hl h⟩
  | some r =>
    rw [he] at h
    exact ⟨r.2, tx, syscallRead_line T buffer hl h⟩

end Loop

/-- How `read` ends when it has stored `k` of the `n` bytes of a line. -/
inductive ReadEnd (T : Translation) (buffer : U64) (n k : Nat) : Except Stop U64 → Prop
  | done (h : k = n) : ReadEnd T buffer n k (.ok (BitVec.ofNat 64 n))
  | fault (h : k < n) (hf : ¬ T.Allows .store (byteAddr buffer k)) :
      ReadEnd T buffer n k (.error (.fault .store (byteAddr buffer k)))

/-- The line is stored, up to the first byte out of reach. -/
theorem syscallRead_delivers (T : Translation) (h : Delivers fd buffer length rx line) :
    ∃ k r, (∀ i, i < line.length ∧ Stored T buffer i ↔ i < k) ∧ ReadEnd T buffer line.length k r ∧
      ∀ s : Hart, s.rx = rx → ∃ s', syscallRead T fd buffer length s = finish r s' ∧
        s'.mem = storedMem T s.mem buffer line k := by
  obtain ⟨rfl, hl, hb, hline⟩ := h
  obtain ⟨-, hle⟩ := lineOf_length hl hline
  have hn : (BitVec.ofNat 64 line.length).toNat = line.length := by
    rw [BitVec.toNat_ofNat]
    omega
  rcases allows_or_first T .store buffer line.length with hall | ⟨k, hk, hok, hf⟩
  · refine ⟨line.length, _, fun i => ⟨fun h => h.1, fun hi => ⟨hi, fun j hj => hall j (by omega)⟩⟩, .done rfl, ?_⟩
    rintro s rfl
    obtain ⟨rest, tx, he⟩ := syscallRead_eq T buffer hl s
    rw [hline] at he
    refine ⟨_, he.trans (bind_ok (copyToUser_ok hb (by rwa [hn]))), ?_⟩
    show storedMem T s.mem buffer line (BitVec.ofNat 64 line.length).toNat = _
    rw [hn]
  · refine ⟨k, _, fun i => ⟨fun h => ?_, fun hi => ⟨by omega, fun j hj => hok j (by omega)⟩⟩, .fault hk hf, ?_⟩
    · by_contra hik
      exact hf (h.2 k (by omega))
    rintro s rfl
    obtain ⟨rest, tx, he⟩ := syscallRead_eq T buffer hl s
    rw [hline] at he
    exact ⟨_, he.trans (bind_error (copyToUser_fault hb (by rwa [hn]) hok hf)), rfl⟩

/-- Nothing is stored. -/
theorem syscallRead_other (h : ∀ line, ¬ Delivers fd buffer length s.rx line) :
    ∃ r s', syscallRead T fd buffer length s = finish r s' ∧ s'.mem = s.mem ∧
      (r = .error .waiting ∨ ∃ v, r = .ok v) ∧
      (fd = 0 → length ≠ 0 → (lineOf length s.rx).isSome → r = .ok ERR_FAULT) := by
  by_cases hfd : fd = 0
  swap
  · refine ⟨.ok ERR_BADF, s, ?_, rfl, .inr ⟨_, rfl⟩, fun h0 => absurd h0 hfd⟩
    rw [syscallRead_badf T hfd]
    rfl
  subst hfd
  by_cases hl : length = 0
  · refine ⟨.ok 0, s, ?_, rfl, .inr ⟨_, rfl⟩, fun _ h0 => absurd hl h0⟩
    rw [hl, syscallRead_zero]
    rfl
  obtain ⟨rest, tx, he⟩ := syscallRead_eq T buffer hl s
  cases hline : lineOf length s.rx with
  | none =>
    rw [hline] at he
    exact ⟨.error .waiting, _, he, rfl, .inl rfl, fun _ _ hs => by cases hs⟩
  | some line =>
    rw [hline] at he
    have hb : buffer = 0 := by
      by_contra hb
      exact h line ⟨rfl, hl, hb, hline⟩
    subst hb
    have hn := lineOf_ne_zero hl hline
    exact ⟨.ok ERR_FAULT, _, he.trans (bind_ok (copyToUser_null hn)), rfl, .inr ⟨_, rfl⟩, fun _ _ _ => rfl⟩

/-! ## Integrity -/

theorem storedMem_changed {m : Mem} {k : Nat} {pa : Addr} (h : storedMem T m buffer line k pa ≠ m pa) :
    ∃ i < k, T.phys (byteAddr buffer i) = pa := by
  induction k with
  | zero => exact absurd rfl h
  | succ k ih =>
    by_cases hk : T.phys (byteAddr buffer k) = pa
    · exact ⟨k, Nat.lt_succ_self k, hk⟩
    · rw [storedMem, Mem.write8_of_ne _ _ (Ne.symm hk)] at h
      obtain ⟨i, hi, he⟩ := ih h
      exact ⟨i, Nat.lt_succ_of_lt hi, he⟩

/-- A byte stored to does not depend on what was there. -/
theorem storedMem_fixed (T : Translation) (buffer : U64) (line : List Byte) {k i : Nat} (hi : i < k) :
    ∃ b, ∀ m, storedMem T m buffer line k (T.phys (byteAddr buffer i)) = b := by
  induction k with
  | zero => omega
  | succ k ih =>
    by_cases hk : T.phys (byteAddr buffer i) = T.phys (byteAddr buffer k)
    · exact ⟨line.getD k 0, fun m => by rw [storedMem, hk, Mem.write8_self]⟩
    · have hik : i ≠ k := fun e => hk (e ▸ rfl)
      obtain ⟨b, hb⟩ := ih (by omega)
      exact ⟨b, fun m => by rw [storedMem, Mem.write8_of_ne _ _ hk, hb]⟩

/-- A byte that is stored is in a user page. -/
theorem ReadIntegrity.stored (h : ReadIntegrity T fd buffer length rx) (hd : Delivers fd buffer length rx line)
    {i : Nat} (hi : i < line.length) (hs : Stored T buffer i) :
    InUserBuffer T buffer line.length (T.phys (byteAddr buffer i)) := by
  obtain ⟨-, hle⟩ := lineOf_length hd.2.1 hd.2.2.2
  obtain ⟨k, r, hk, hend, hr⟩ := syscallRead_delivers T hd
  obtain ⟨b, hb⟩ := storedMem_fixed T buffer line ((hk i).mp ⟨hi, hs⟩)
  -- memory has another byte wherever the line is stored
  let s : Hart := { mem := fun _ => b + 1, sstatus := 0, rx := rx, tx := [] }
  obtain ⟨s', he, hmem⟩ := hr s rfl
  have hpa : (final (syscallRead T fd buffer length s)).mem (T.phys (byteAddr buffer i)) ≠
      s.mem (T.phys (byteAddr buffer i)) := by
    rw [he, final_finish, hmem, hb]
    show b ≠ b + 1
    bv_omega
  obtain ⟨i', hi', hfl⟩ := h s rfl _ hpa
  refine ⟨i', fun hall => ?_, hfl⟩
  cases hend with
  | done =>
    have hi' := hi' (BitVec.ofNat 64 line.length) (by rw [he, outcome_finish])
    rw [BitVec.toNat_ofNat] at hi'
    omega
  | fault hlt hf => exact absurd (hall k hlt) hf

/-- Memory changes in user pages only, exactly when every byte that is stored is
also one of such a page. -/
theorem syscallRead_integrity (T : Translation) (fd buffer length : U64) (rx : List Byte) :
    ReadIntegrity T fd buffer length rx ↔ ∀ line, Delivers fd buffer length rx line →
      ∀ i < line.length, Stored T buffer i → InUserBuffer T buffer line.length (T.phys (byteAddr buffer i)) := by
  refine ⟨fun h line hd i hi hs => h.stored hd hi hs, ?_⟩
  rintro h s rfl r pa hpa
  by_cases hd : ∃ line, Delivers fd buffer length s.rx line
  · obtain ⟨line, hd⟩ := hd
    obtain ⟨-, hle⟩ := lineOf_length hd.2.1 hd.2.2.2
    obtain ⟨k, o, hk, hend, hr⟩ := syscallRead_delivers T hd
    obtain ⟨s', he, hmem⟩ := hr s rfl
    have hr' : r = finish o s' := he
    rw [hr', final_finish, hmem] at hpa
    obtain ⟨i, hi, rfl⟩ := storedMem_changed hpa
    obtain ⟨hil, hs⟩ := (hk i).mpr hi
    obtain ⟨i', hi', hfl⟩ := h line hd i hil hs
    refine ⟨i', fun v hv => ?_, hfl⟩
    rw [hr', outcome_finish] at hv
    subst hv
    cases hend with
    | done hkl =>
      rw [BitVec.toNat_ofNat]
      have := hi' fun j hj => ((hk j).mpr (hkl ▸ hj)).2 j (Nat.le_refl j)
      omega
  · obtain ⟨o, s', he, hmem, -⟩ := syscallRead_other (T := T) (not_exists.mp hd)
    refine absurd ?_ hpa
    show (final (syscallRead T fd buffer length s)).mem pa = _
    rw [he, final_finish, hmem]

/-- A user process stores a character into the kernel's `.bss`. -/
theorem read_changes_kernel : ∃ T, SampleProcess T ∧ ¬ ReadIntegrity T 0 sampleSymbols.bssStart 2 [0x41, 0x0A] := by
  obtain ⟨T, h⟩ := sample_process
  refine ⟨T, h, fun hr => ?_⟩
  have haddr := byteAddr_zero sampleSymbols.bssStart
  have hs : Stored T sampleSymbols.bssStart 0 := by
    intro j hj
    obtain rfl := Nat.le_zero.mp hj
    rw [haddr]
    exact ⟨_, _, h.bss, by decide⟩
  have hu := hr.stored (show Delivers _ _ _ _ [0x41, 0x0A] from ⟨rfl, by decide, by decide, by decide⟩) (by decide) hs
  rw [haddr, Translation.phys, h.bss] at hu
  obtain ⟨i, -, fl, ht, hfl⟩ := hu
  exact h.kernel PTE_W sampleSymbols.bssStart (by decide) (by decide) ⟨_, fl, ht, hfl⟩

end RvOs
