import RvOs.Proof.LineEditor
import RvOs.Proof.TrapHandler
import RvOs.Spec.Task

/-!
# System calls on a program's own memory

Calls that are `Confined` do to the memory and the console of the hart what
`Task.call` does to those of the program (`read_task`, `write_task`), and
every trap ends as `Task.trap` says (`handler_task`).
-/

namespace RvOs

open Exec RiscV

variable {T : Translation} {access : Access} {va pa flags buffer length fd : U64} {h h' : Hart} {t t' : Task}
  {rx line : List Byte}

/-! ## Pages for U-mode -/

theorem userMay_iff : T.userMay access va = true ↔
    ∃ pa flags, T va = some (pa, flags) ∧ hasFlag flags PTE_U = true ∧ hasFlag flags access.flag = true := by
  rw [Translation.userMay]
  cases T va with
  | none => exact ⟨fun h => absurd h Bool.false_ne_true, fun ⟨_, _, h, _⟩ => nomatch h⟩
  | some x =>
    obtain ⟨pa, flags⟩ := x
    rw [Bool.and_eq_true]
    refine ⟨fun h => ⟨pa, flags, rfl, h⟩, fun ⟨_, _, h, hf⟩ => ?_⟩
    cases h
    exact hf

theorem isUser_iff : T.isUser va = true ↔ ∃ pa flags, T va = some (pa, flags) ∧ hasFlag flags PTE_U = true := by
  rw [Translation.isUser]
  cases T va with
  | none => exact ⟨fun h => absurd h Bool.false_ne_true, fun ⟨_, _, h, _⟩ => nomatch h⟩
  | some x =>
    refine ⟨fun h => ⟨x.1, x.2, rfl, h⟩, fun ⟨_, _, h, hf⟩ => ?_⟩
    cases h
    exact hf

theorem isUser_of_eq (ht : T va = some (pa, flags)) : T.isUser va = hasFlag flags PTE_U := by
  rw [Translation.isUser, ht]

/-- What U-mode may access S-mode may, with SUM. -/
theorem allows_of_userMay (h : T.userMay access va = true) : T.Allows access va := by
  obtain ⟨pa, flags, ht, hu, hf⟩ := userMay_iff.mp h
  refine ⟨pa, flags, ht, ?_⟩
  cases access with
  | load => rw [sModeAllows, show hasFlag flags PTE_R = true from hf]; rfl
  | store => rw [sModeAllows, show hasFlag flags PTE_W = true from hf]; rfl

theorem inUserPage_of_userMay (h : T.userMay access va = true) : T.InUserPage access.flag (T.phys va) := by
  obtain ⟨pa, flags, ht, hu, hf⟩ := userMay_iff.mp h
  refine ⟨va, flags, ?_, hu, hf⟩
  rw [Translation.phys, ht]
  rfl

/-! ## What the hart shows -/

/-- The memory and the console of the hart are those of the program. -/
structure HartShows (T : Translation) (h : Hart) (t : Task) : Prop where
  user : ∀ va pa flags, T va = some (pa, flags) → hasFlag flags PTE_U = true → t.mem va = h.mem pa
  other : ∀ va, T.isUser va = false → t.mem va = 0
  rx : h.rx = t.rx
  tx : h.tx = t.tx

theorem HartShows.mem (hs : HartShows T h t) (hm : T.userMay access va = true) : h.mem (T.phys va) = t.mem va := by
  obtain ⟨pa, flags, ht, hu, -⟩ := userMay_iff.mp hm
  rw [hs.user va pa flags ht hu, Translation.phys, ht]
  rfl

/-- How a call ends on the hart and for the program. -/
inductive CallEnds (T : Translation) : EStateM.Result Stop Hart U64 → Fate (U64 × Task) → Prop
  | returns {a0 : U64} {h : Hart} {t : Task} (hs : HartShows T h t) : CallEnds T (.ok a0 h) (.runs (a0, t))
  | faults {access : Access} {va : U64} {h : Hart} {tx : List Byte} (htx : tx = h.tx ++ panicText) :
      CallEnds T (.error (.fault access va) h) (.stops .panicked tx)
  | waits {h : Hart} {tx : List Byte} (htx : tx = h.tx) : CallEnds T (.error .waiting h) (.stops .waiting tx)
  | halts {h : Hart} {tx : List Byte} (htx : tx = h.tx) : CallEnds T (.error .halted h) (.stops .halted tx)

/-- The call `x` in `h` ends as `r` says, and stores to pages that U-mode may write only. -/
structure CallOk (T : Translation) (h : Hart) (x : Exec U64) (r : Fate (U64 × Task)) : Prop where
  ends : CallEnds T (x h) r
  rest : ∀ pa, ¬ T.InUserPage PTE_W pa → (final (x h)).mem pa = h.mem pa

section CallOk

variable {x y : Exec U64} {r : Fate (U64 × Task)} {a0 : U64}

/-- A call that returns, -/
theorem CallOk.ok (he : x h = .ok a0 h') (hs : HartShows T h' t)
    (hm : ∀ pa, ¬ T.InUserPage PTE_W pa → h'.mem pa = h.mem pa) : CallOk T h x (.runs (a0, t)) :=
  ⟨he ▸ .returns hs, fun pa hpa => by rw [he]; exact hm pa hpa⟩

/-- one that faults, -/
theorem CallOk.fault (he : x h = .error (.fault access va) h') {tx : List Byte} (htx : h'.tx = tx)
    (hm : ∀ pa, ¬ T.InUserPage PTE_W pa → h'.mem pa = h.mem pa) : CallOk T h x (.stops .panicked (tx ++ panicText)) :=
  ⟨he ▸ .faults (by rw [htx]), fun pa hpa => by rw [he]; exact hm pa hpa⟩

/-- and one that goes on from `h'`. -/
theorem CallOk.after (he : x h = y h') (hm : h'.mem = h.mem) (hy : CallOk T h' y r) : CallOk T h x r :=
  ⟨he ▸ hy.ends, fun pa hpa => by rw [he, hy.rest pa hpa, hm]⟩

end CallOk

/-- Addresses that are only in reach as those of the program. -/
def Own (T : Translation) (access : Access) (buffer : U64) (n : Nat) : Prop :=
  ∀ i < n, T.Allows access (byteAddr buffer i) → T.userMay access (byteAddr buffer i) = true

theorem Own.all_iff {n : Nat} (ho : Own T access buffer n) : (∀ i < n, T.userMay access (byteAddr buffer i) = true) ↔
    ∀ i < n, T.Allows access (byteAddr buffer i) :=
  ⟨fun h i hi => allows_of_userMay (h i hi), fun h i hi => ho i hi (h i hi)⟩

/-! ## `write` -/

theorem HartShows.bytes (hs : HartShows T h t) {n : Nat}
    (hm : ∀ i < n, T.userMay .load (byteAddr buffer i) = true) : userBytes T h.mem buffer n = t.bytes buffer n := by
  rw [userBytes, Task.bytes]
  exact List.map_congr_left fun i hi => hs.mem (hm i (List.mem_range.mp hi))

theorem HartShows.sent (hs : HartShows T h t) (bytes : List Byte) :
    HartShows T { h with tx := h.tx ++ bytes } { t with tx := t.tx ++ bytes } :=
  ⟨hs.user, hs.other, hs.rx, by rw [hs.tx]⟩

theorem toNat_writeChunk (length : U64) : (writeChunk length).toNat = min length.toNat 256 := by
  rcases writeChunk_size length with ⟨hc, hle⟩ | ⟨hc, hlt⟩ <;> omega

/-- The loop of `syscall_write`. -/
theorem writeLoop_task (n : Nat) : ∀ (buffer length totalWritten : U64) (h : Hart) (t : Task), length.toNat = n →
    HartShows T h t → Own T .load buffer n →
    CallOk T h (writeLoop T buffer length totalWritten) (t.send T (totalWritten + length) buffer n) := by
  induction n using Nat.strongRecOn with
  | ind n ih =>
    rintro buffer length totalWritten h t rfl hs ho
    have hc := toNat_writeChunk length
    by_cases hl : 0 < length
    swap
    · have hl0 : length.toNat = 0 := Nat.eq_zero_of_not_pos hl
      have hz : ∀ x : U64, x + 0 = x := BitVec.add_zero
      rw [writeLoop, dif_neg hl, Task.send, if_pos hl0, BitVec.eq_of_toNat_eq (y := 0) hl0, hz]
      exact .ok rfl hs fun _ _ => rfl
    have hlt : 0 < length.toNat := hl
    rw [writeLoop, dif_pos hl, Task.send, if_neg (by omega)]
    by_cases hb : buffer = 0
    · subst hb
      have hnull : copyFromUser T 0 (writeChunk length) h = .ok none h :=
        copyFromUser_null fun h0 => by rw [h0] at hc; change 0 = _ at hc; omega
      rw [if_pos rfl]
      exact .ok (bind_ok hnull) hs fun _ _ => rfl
    rw [if_neg hb, ← hc]
    have ho' : Own T .load buffer (writeChunk length).toNat := fun i hi => ho i (by omega)
    by_cases hall : ∀ i < (writeChunk length).toNat, T.userMay .load (byteAddr buffer i) = true
    · have haddr : buffer + writeChunk length = byteAddr buffer (writeChunk length).toNat := by
        rw [byteAddr, BitVec.ofNat_toNat, BitVec.setWidth_eq]
      have hsub : (length - writeChunk length).toNat = length.toNat - (writeChunk length).toNat :=
        BitVec.toNat_sub_of_le (BitVec.le_def.mpr (by omega))
      have hsum : totalWritten + writeChunk length + (length - writeChunk length) = totalWritten + length := by
        rw [BitVec.add_assoc, BitVec.add_comm (writeChunk length), BitVec.sub_add_cancel]
      have hcopy : copyFromUser T buffer (writeChunk length) h = _ := copyFromUser_ok hb (ho'.all_iff.mp hall)
      rw [hs.bytes hall] at hcopy
      -- the rest, with the bytes of the chunk sent
      have hrest := ih _ (writeChunk_lt hl) (buffer + writeChunk length) (length - writeChunk length)
        (totalWritten + writeChunk length) _ _ rfl
        (hs.sent ((t.bytes buffer (writeChunk length).toNat).filter (· ≠ 0))) fun i hi => by
          rw [haddr, byteAddr_add]
          exact ho _ (by omega)
      rw [hsum, hsub] at hrest
      rw [if_pos hall, ← haddr]
      exact .after ((bind_ok hcopy).trans (bind_ok (putBytes_ok _ h))) rfl hrest
    · rw [if_neg hall]
      rw [ho'.all_iff] at hall
      obtain ⟨i, hi, hok, hf⟩ := (allows_or_first T .load buffer (writeChunk length).toNat).resolve_left hall
      exact .fault (bind_error (copyFromUser_fault hb hi hok hf)) hs.tx fun _ _ => rfl

theorem write_task (hs : HartShows T h t) (ho : IsOutput fd → Own T .load buffer length.toNat) :
    CallOk T h (syscallWrite T fd buffer length) (t.write T fd buffer length) := by
  rw [syscallWrite, Task.write]
  by_cases hfd : fd ≠ 1 ∧ fd ≠ 2
  · rw [if_pos hfd, if_pos hfd]
    exact .ok rfl hs fun _ _ => rfl
  rw [if_neg hfd, if_neg hfd]
  have hout : IsOutput fd := by
    by_contra hn
    exact hfd (not_or.mp hn)
  by_cases hl : length = 0
  · subst hl
    rw [if_pos rfl, Task.send, if_pos (show (0 : U64).toNat = 0 from rfl)]
    exact .ok rfl hs fun _ _ => rfl
  · have hz : ∀ x : U64, 0 + x = x := BitVec.zero_add
    rw [if_neg hl]
    have hw := writeLoop_task _ buffer length 0 h t rfl hs (ho hout)
    rwa [hz] at hw

/-! ## `read` -/

/-- The loop is the editor, and sends what is shown. -/
theorem readLoop_shown (length : U64) (rx : List Byte) : ∀ (line : List Byte) (fuel : Nat) (s : Hart), s.rx = rx →
    rx.length < fuel → readLoop length fuel line s =
      match editLine length.toNat rx line with
      | some (line', rest) => .ok line' { s with rx := rest, tx := s.tx ++ shown length.toNat rx line }
      | none => .error .waiting { s with rx := [], tx := s.tx ++ shown length.toNat rx line } := by
  induction rx with
  | nil =>
    intro line fuel s hs hf
    obtain ⟨n, rfl⟩ := Nat.exists_eq_succ_of_ne_zero (Nat.ne_of_gt hf)
    have hs' : ({ s with rx := [], tx := s.tx ++ [] } : Hart) = s := by rw [List.append_nil, ← hs]
    rw [readLoop, editLine, shown, hs']
    by_cases hl : line.length < length.toNat
    · have hget : uartGetc s = .error .waiting s := by rw [uartGetc, hs]
      rw [if_pos hl, if_pos hl]
      exact bind_error hget
    · rw [if_neg hl, if_neg hl]
      exact congrArg (EStateM.Result.ok line) hs'.symm
  | cons c rx ih =>
    intro line fuel s hs hf
    obtain ⟨n, rfl⟩ := Nat.exists_eq_succ_of_ne_zero (Nat.ne_of_gt (Nat.zero_lt_of_lt hf))
    have hf' : rx.length < n := Nat.lt_of_succ_lt_succ hf
    rw [editLine, shown]
    by_cases hl : line.length < length.toNat
    swap
    · rw [readLoop, if_neg hl, if_neg hl, if_neg hl, List.append_nil, ← hs]
      rfl
    rw [readLoop_cons hl hs, if_pos hl, if_pos hl]
    simp only [normalize_erases]
    split_ifs with hd ht hn
    · rw [ih _ _ _ rfl hf']
      simp only [List.append_assoc, List.cons_append, List.nil_append]
    · have hnil : line = [] := List.eq_nil_of_length_eq_zero (Nat.eq_zero_of_not_pos ht)
      rw [hnil, ih _ _ _ rfl hf']
      rfl
    · rfl
    · rw [ih _ _ _ rfl hf']
      simp only [List.append_assoc, List.cons_append, List.nil_append]

/-- The address is byte `i` of the buffer. -/
theorem byteAddr_eq_iff {i : Nat} (hi : i < 2 ^ 64) : va = byteAddr buffer i ↔ (va - buffer).toNat = i := by
  constructor
  · rintro rfl
    rw [byteAddr, Mem.add_ofNat_sub buffer hi]
  · rintro rfl
    rw [byteAddr, BitVec.ofNat_toNat, BitVec.setWidth_eq, BitVec.add_comm, BitVec.sub_add_cancel]

/-- A line stored shows in the program's memory at its addresses. -/
theorem storedMem_user (hinj : T.UserInj) (m : Mem) {n : Nat} (hn : n ≤ 2 ^ 64)
    (hall : ∀ i < n, T.userMay .store (byteAddr buffer i) = true) (ht : T va = some (pa, flags))
    (hu : hasFlag flags PTE_U = true) :
    storedMem T m buffer line n pa = if (va - buffer).toNat < n then line.getD (va - buffer).toNat 0 else m pa := by
  induction n with
  | zero => exact (if_neg (Nat.not_lt_zero _)).symm
  | succ n ih =>
    obtain ⟨pa', flags', ht', hu', -⟩ := userMay_iff.mp (hall n (Nat.lt_succ_self n))
    have hphys : T.phys (byteAddr buffer n) = pa' := by rw [Translation.phys, ht']; rfl
    rw [storedMem, hphys]
    by_cases hva : (va - buffer).toNat = n
    · have hbyte := (byteAddr_eq_iff (by omega)).mpr hva
      rw [hbyte, ht'] at ht
      obtain ⟨rfl, -⟩ := Prod.mk.inj (Option.some.inj ht)
      rw [Mem.write8_self, hva, if_pos (Nat.lt_succ_self n)]
    · have hne : pa ≠ pa' := by
        rintro rfl
        exact hva ((byteAddr_eq_iff (by omega)).mp (hinj _ _ _ _ _ ht hu ht' hu'))
      rw [Mem.write8_of_ne _ _ hne, ih (by omega) fun i hi => hall i (by omega)]
      exact if_congr (by omega) rfl rfl

theorem storedMem_rest {m : Mem} {n : Nat} (hall : ∀ i < n, T.userMay .store (byteAddr buffer i) = true)
    (hpa : ¬ T.InUserPage PTE_W pa) : storedMem T m buffer line n pa = m pa := by
  by_contra hne
  obtain ⟨i, hi, rfl⟩ := storedMem_changed hne
  exact hpa (inUserPage_of_userMay (hall i hi))

/-- The line in the buffer. -/
theorem HartShows.stored (hs : HartShows T h t) (hinj : T.UserInj) (hn : line.length ≤ 256)
    (hall : ∀ i < line.length, T.userMay .store (byteAddr buffer i) = true) :
    HartShows T { h with mem := storedMem T h.mem buffer line line.length } (t.store buffer line) := by
  refine ⟨fun va pa flags ht hu => ?_, fun va hva => ?_, hs.rx, hs.tx⟩
  · show (if _ then _ else _) = storedMem T h.mem buffer line line.length pa
    rw [storedMem_user hinj h.mem (by omega) hall ht hu, hs.user va pa flags ht hu]
  · refine (if_neg fun hlt => ?_).trans (hs.other va hva)
    have hmay := hall _ hlt
    rw [← (byteAddr_eq_iff (by omega)).mpr rfl] at hmay
    obtain ⟨pa, flags, ht, hu, -⟩ := userMay_iff.mp hmay
    rw [isUser_of_eq ht, hu] at hva
    exact absurd hva.symm Bool.false_ne_true

theorem read_task (hs : HartShows T h t) (hinj : T.UserInj)
    (ho : fd = 0 → length ≠ 0 → ∀ line, lineOf length t.rx = some line → Own T .store buffer line.length) :
    CallOk T h (syscallRead T fd buffer length) (t.read T fd buffer length) := by
  rw [Task.read]
  by_cases hfd : fd = 0
  swap
  · rw [syscallRead_badf T hfd, if_pos hfd]
    exact .ok rfl hs fun _ _ => rfl
  subst hfd
  rw [if_neg (not_not.mpr rfl)]
  by_cases hl : length = 0
  · rw [hl, syscallRead_zero, if_pos rfl]
    exact .ok rfl hs fun _ _ => rfl
  rw [if_neg hl]
  have hloop := readLoop_shown (readCap length) t.rx [] (h.rx.length + 1) h hs.rx (hs.rx ▸ Nat.lt_succ_self _)
  rw [readLength, hs.tx] at hloop
  have hown := ho rfl hl
  dsimp only
  cases he : editLine (min length.toNat 256) t.rx [] with
  | none =>
    rw [he] at hloop
    have hx := syscallRead_error T buffer hl hloop
    exact ⟨hx ▸ .waits rfl, fun pa _ => by rw [hx]; rfl⟩
  | some r =>
    obtain ⟨line, rest⟩ := r
    rw [he] at hloop
    have hline : lineOf length t.rx = some line := by rw [lineOf, he]; rfl
    have hown := hown line hline
    obtain ⟨-, hle⟩ := lineOf_length hl hline
    have hn : (BitVec.ofNat 64 line.length).toNat = line.length := by
      rw [BitVec.toNat_ofNat]
      omega
    have hx := syscallRead_line T buffer hl hloop
    have hs' : HartShows T ⟨h.mem, h.sstatus, rest, t.tx ++ shown (min length.toNat 256) t.rx []⟩
        { t with rx := rest, tx := t.tx ++ shown (min length.toNat 256) t.rx [] } := ⟨hs.user, hs.other, rfl, rfl⟩
    refine .after hx rfl ?_
    dsimp only
    by_cases hb : buffer = 0
    · subst hb
      rw [if_pos rfl]
      exact .ok (bind_ok (copyToUser_null (lineOf_ne_zero hl hline))) hs' fun _ _ => rfl
    rw [if_neg hb]
    by_cases hall : ∀ i < line.length, T.userMay .store (byteAddr buffer i) = true
    · rw [if_pos hall]
      have hcopy : copyToUser T buffer line (BitVec.ofNat 64 line.length)
          ⟨h.mem, h.sstatus, rest, t.tx ++ shown (min length.toNat 256) t.rx []⟩ = _ :=
        copyToUser_ok hb (by rw [hn]; exact hown.all_iff.mp hall)
      rw [hn] at hcopy
      exact .ok (bind_ok hcopy) (hs'.stored hinj hle hall) fun pa hpa => storedMem_rest hall hpa
    · rw [if_neg hall]
      rw [hown.all_iff] at hall
      obtain ⟨i, hi, hok, hf⟩ := (allows_or_first T .store buffer line.length).resolve_left hall
      refine .fault (bind_error (copyToUser_fault hb (by rwa [hn]) hok hf)) rfl fun pa hpa => ?_
      exact storedMem_rest (fun j hj => hown j (by omega) (hok j hj)) hpa

/-! ## Traps -/

theorem panicTrap_tx {α : Type} (message : String) (frame : TrapFrame) (s : Hart) :
    (panicTrap message frame : Exec α) s = .error .panicked { s with tx := s.tx ++ panicText } := by
  simp only [panicTrap, debugPrints_eq, debugPrintHex_eq, pure_bind, panic]
  rw [bind_ok (uartPuts_eq _ _), bind_ok (uartPuts_eq _ _), bind_ok (uartPuts_eq _ _), bind_ok (uartPuts_eq _ _),
    bind_ok (uartPuts_eq _ _)]
  simp only [List.append_assoc]
  rfl

theorem syscallExit_tx {α : Type} (status : U64) (s : Hart) :
    (syscallExit status : Exec α) s = .error .halted { s with tx := s.tx ++ exitText status } := by
  rw [syscallExit, bind_ok (uartPuts_eq _ _), bind_ok (printHex_eq _ _), bind_ok (uartPuts_eq _ _), exitText]
  simp only [List.append_assoc]
  rfl

/-- The registers that a system call takes. -/
structure CallRegs (frame : TrapFrame) (t : Task) : Prop where
  a7 : frame.a7 = t.reg .a7
  a0 : frame.a0 = t.reg .a0
  a1 : frame.a1 = t.reg .a1
  a2 : frame.a2 = t.reg .a2

theorem call_task {frame : TrapFrame} (hs : HartShows T h t) (hinj : T.UserInj) (hc : t.Confined T)
    (hr : CallRegs frame t) : ∃ x : Exec U64, CallOk T h x (t.call T) ∧ syscallHandle T frame = do
      let a0 ← x
      return { frame with a0, epc := frame.epc + 4 } := by
  obtain ⟨h7, h0, h1, h2⟩ := hr
  unfold Task.Confined Task.Accesses at hc
  rw [← h7, ← h0, ← h1, ← h2] at hc
  rw [Task.call, ← h7, ← h0, ← h1, ← h2, syscallHandle]
  have hexit : ∃ x : Exec U64, CallOk T h x (.stops .halted (t.tx ++ exitText frame.a0)) ∧
      (syscallExit frame.a0 : Exec TrapFrame) = do
        let a0 ← x
        return { frame with a0, epc := frame.epc + 4 } := by
    refine ⟨syscallExit frame.a0, ⟨?_, fun pa _ => ?_⟩, funext fun s => ?_⟩
    · rw [syscallExit_tx]
      exact .halts (by rw [← hs.tx])
    · rw [syscallExit_tx]
      rfl
    · rw [syscallExit_tx, bind_error (syscallExit_tx _ s)]
  by_cases hr : frame.a7 = SYSCALL_READ
  · rw [if_pos hr, if_pos hr]
    refine ⟨_, read_task hs hinj fun hfd hl line hline i hi ha => ?_, rfl⟩
    exact hc .store _ (.inr ⟨hr, hfd, hl, rfl, line, hline, i, hi, rfl⟩) ha
  rw [if_neg hr, if_neg hr]
  by_cases hw : frame.a7 = SYSCALL_WRITE
  · rw [if_pos hw, if_pos hw]
    refine ⟨_, write_task hs fun hout i hi ha => ?_, rfl⟩
    exact hc .load _ (.inl ⟨hw, hout, rfl, i, hi, rfl⟩) ha
  rw [if_neg hw, if_neg hw]
  by_cases he : frame.a7 = SYSCALL_EXIT
  · rw [if_pos he, if_pos (.inl he)]
    exact hexit
  rw [if_neg he]
  by_cases hg : frame.a7 = SYSCALL_EXIT_GROUP
  · rw [if_pos hg, if_pos (.inr hg)]
    exact hexit
  · rw [if_neg hg, if_neg (not_or.mpr ⟨he, hg⟩)]
    exact ⟨pure ERR_NOSYS, .ok rfl hs fun _ _ => rfl, rfl⟩

/-- How a trap ends: the handler returns, or whatever it leads to sends and stops. -/
inductive TrapEnds (T : Translation) (frame : TrapFrame) (h : Hart) : Fate (U64 × Task) → Prop
  | returns {a0 : U64} {h' : Hart} {t : Task} (hs : HartShows T h' t)
      (hh : supervisorTrapHandler T frame h = .ok { frame with a0, epc := frame.epc + 4 } h') :
      TrapEnds T frame h (.runs (a0, t))
  | stops {why : Stop} {tx : List Byte} (hh : ∃ e h', supervisorTrapHandler T frame h = .error e h')
      (hr : ∀ kernel n, ∃ h', runTrap T kernel (n + 1) frame h = .error why h' ∧ h'.tx = tx) :
      TrapEnds T frame h (.stops why tx)

theorem handleSupervisorException_panics {frame : TrapFrame} (h3 : (trapCode frame.cause).toNat ≠ 3) :
    ∃ message, handleSupervisorException T frame = panicTrap message frame := by
  rw [handleSupervisorException]
  split
  case h_4 hc => exact absurd hc h3
  all_goals exact ⟨_, rfl⟩

theorem handleUserException_panics {frame : TrapFrame} (h3 : (trapCode frame.cause).toNat ≠ 3)
    (h8 : (trapCode frame.cause).toNat ≠ 8) : ∃ message, handleUserException T frame = panicTrap message frame := by
  rw [handleUserException]
  split
  case h_4 hc => exact absurd hc h3
  case h_9 hc => exact absurd hc h8
  all_goals exact ⟨_, rfl⟩

/-- A page fault in a handler panics, -/
theorem faultFrame_tx (T : Translation) (kernel : TrapFrame) (access : Access) (va sstatus : U64) (h : Hart) :
    supervisorTrapHandler T (faultFrame kernel access va sstatus) h =
      .error .panicked { h with tx := h.tx ++ panicText } := by
  have hspp : trapFromUser (faultFrame kernel access va sstatus) = false := by
    rw [trapFromUser, faultFrame, trapStatus_spp]
    decide
  have hcause : (faultFrame kernel access va sstatus).cause = faultCause access := rfl
  have hint : trapIsInterrupt (faultCause access) = false := by cases access <;> decide
  have hcode : (trapCode (faultCause access)).toNat ≠ 3 := by cases access <;> decide
  obtain ⟨message, he⟩ : ∃ message, handleSupervisorException T (faultFrame kernel access va sstatus) =
      panicTrap message (faultFrame kernel access va sstatus) := handleSupervisorException_panics (hcause ▸ hcode)
  rw [supervisorTrapHandler_eq, trapHandler, hcause, hint, if_neg Bool.false_ne_true, handleException, hspp,
    if_neg Bool.false_ne_true, he, panicTrap_tx]

/-- whatever it has sent. -/
theorem runTrap_fault_tx {frame : TrapFrame} (hh : supervisorTrapHandler T frame h = .error (.fault access va) h')
    (kernel : TrapFrame) (n : Nat) :
    ∃ h'', runTrap T kernel (n + 1) frame h = .error .panicked h'' ∧ h''.tx = h'.tx ++ panicText := by
  have hp := faultFrame_tx T kernel access va h'.sstatus { h' with sstatus := trapStatus h'.sstatus }
  refine ⟨{ h' with sstatus := trapStatus h'.sstatus, tx := h'.tx ++ panicText }, ?_, rfl⟩
  cases n with
  | zero => simp only [runTrap, hh, hp]
  | succ n => simp only [runTrap, hh, hp]

theorem runTrap_stop {frame : TrapFrame} {e : Stop} (he : ∀ access va, e ≠ .fault access va)
    (hh : supervisorTrapHandler T frame h = .error e h') (kernel : TrapFrame) (n : Nat) :
    runTrap T kernel (n + 1) frame h = .error e h' := by
  cases e with
  | fault access va => exact absurd rfl (he access va)
  | waiting | panicked | halted => simp only [runTrap, hh]

section Handler

variable {frame : TrapFrame}

/-- A handler that panics, -/
theorem TrapEnds.panics {message : String} (hs : HartShows T h t)
    (he : supervisorTrapHandler T frame = panicTrap message frame) :
    TrapEnds T frame h (.stops .panicked (t.tx ++ panicText)) ∧
      ∀ pa, ¬ T.InUserPage PTE_W pa → (final (supervisorTrapHandler T frame h)).mem pa = h.mem pa := by
  have hp : supervisorTrapHandler T frame h = .error .panicked { h with tx := h.tx ++ panicText } := by
    rw [he, panicTrap_tx]
  refine ⟨.stops ⟨_, _, hp⟩ fun kernel n => ⟨_, runTrap_stop (fun _ _ h => by cases h) hp kernel n, ?_⟩, fun pa _ => ?_⟩
  · show h.tx ++ panicText = _
    rw [hs.tx]
  · rw [hp]
    rfl

/-- and one that makes a call. -/
theorem TrapEnds.call {x : Exec U64} {r : Fate (U64 × Task)} (hx : CallOk T h x r)
    (he : supervisorTrapHandler T frame = do
      let a0 ← x
      return { frame with a0, epc := frame.epc + 4 }) :
    TrapEnds T frame h r ∧
      ∀ pa, ¬ T.InUserPage PTE_W pa → (final (supervisorTrapHandler T frame h)).mem pa = h.mem pa := by
  obtain ⟨hends, hrest⟩ := hx
  cases hxh : x h with
  | ok a0 h' =>
    rw [hxh] at hends hrest
    have hh : supervisorTrapHandler T frame h = .ok { frame with a0, epc := frame.epc + 4 } h' := by
      rw [he]
      exact bind_ok hxh
    rw [hh]
    cases hends with
    | returns hs => exact ⟨.returns hs hh, hrest⟩
  | error e h' =>
    rw [hxh] at hends hrest
    have hh : supervisorTrapHandler T frame h = .error e h' := by
      rw [he]
      exact bind_error hxh
    refine ⟨?_, by rw [hh]; exact hrest⟩
    cases hends with
    | faults htx =>
      refine .stops ⟨_, _, hh⟩ fun kernel n => ?_
      obtain ⟨h'', hr, htx'⟩ := runTrap_fault_tx hh kernel n
      exact ⟨h'', hr, htx'.trans htx.symm⟩
    | waits htx | halts htx =>
      exact .stops ⟨_, _, hh⟩ fun kernel n => ⟨_, runTrap_stop (fun _ _ h => by cases h) hh kernel n, htx.symm⟩

/-- A trap from U-mode with the registers of the program in its frame. -/
theorem handler_task (hs : HartShows T h t) (hinj : T.UserInj) (hu : frame.status &&& SSTATUS_SPP = 0)
    (hr : CallRegs frame t) (hc : frame.cause = 8 → t.Confined T)
    (hb : frame.cause = 3 → hasFlag h.sstatus SSTATUS_SUM = false ∧ T.isUser frame.epc = true) :
    TrapEnds T frame h (if frame.cause = 8 then t.call T else .stops .panicked (t.tx ++ panicText)) ∧
      ∀ pa, ¬ T.InUserPage PTE_W pa → (final (supervisorTrapHandler T frame h)).mem pa = h.mem pa := by
  by_cases h8 : frame.cause = 8
  · rw [if_pos h8]
    have hcall : frame.isUserEcall = true := by
      rw [TrapFrame.isUserEcall, hu, h8]
      decide
    obtain ⟨x, hx, he⟩ := call_task hs hinj (hc h8) hr
    exact TrapEnds.call hx ((userEcall_handler hcall T).trans he)
  rw [if_neg h8]
  by_cases h3 : frame.cause = 3
  · -- S-mode may not load from the text of the program
    obtain ⟨hsum, hpc⟩ := hb h3
    have hdenied : sModeAddr T h.sstatus .load frame.epc = none := by
      obtain ⟨pa, flags, ht, hu⟩ := isUser_iff.mp hpc
      rw [sModeAddr, ht]
      refine if_neg ?_
      rw [hsum, sModeAllows, hu, Bool.not_true, Bool.or_false, Bool.and_false]
      exact Bool.false_ne_true
    have hh : supervisorTrapHandler T frame h = .error (.fault .load frame.epc) h := by
      rw [supervisorTrapHandler_eq, userBreakpoint_handler hu h3, advanceTrap_fault hdenied]
    refine ⟨.stops ⟨_, _, hh⟩ fun kernel n => ?_, fun pa _ => by rw [hh]; rfl⟩
    obtain ⟨h'', hr, htx⟩ := runTrap_fault_tx hh kernel n
    exact ⟨h'', hr, by rw [htx, hs.tx]⟩
  · have hpanic : ∃ message, supervisorTrapHandler T frame = panicTrap message frame := by
      rw [supervisorTrapHandler_eq, trapHandler]
      by_cases hi : trapIsInterrupt frame.cause = true
      · rw [if_pos hi]
        exact handleInterrupt_eq frame
      · have hcode := cause_of_trapCode (Bool.not_eq_true _ ▸ hi)
        have hne : ∀ n : U64, frame.cause ≠ n → (trapCode frame.cause).toNat ≠ n.toNat := fun n hn he =>
          hn (BitVec.eq_of_toNat_eq (hcode.symm.trans he))
        have hfrom : trapFromUser frame = true := by rw [trapFromUser, hu]; rfl
        rw [if_neg hi, handleException, hfrom, if_pos rfl]
        exact handleUserException_panics (hne 3 h3) (hne 8 h8)
    obtain ⟨message, he⟩ := hpanic
    exact TrapEnds.panics hs he

end Handler

end RvOs
