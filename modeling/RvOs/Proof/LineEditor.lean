import RvOs.Proof.Read
import RvOs.Spec.LineEditor

/-!
# `read` as a line editor

The array and the index of `syscall_read` are a list (`ReadBuffer.Rep`), so
`syscallReadAt` is `syscallRead` and never leaves `temp` (`syscallReadAt_eq`).
Its loop takes the keys of the editor one by one (`readLoop_keys`), and what it
sends keeps the line on the screen (`Terminal.Shows.echo`).
-/

namespace RvOs

open Exec

variable {T : Translation} {buffer length : U64} {line input rest : List Byte} {c : Byte} {s s' : Hart}
  {b : ReadBuffer} {limit : Nat}

/-! ## The array -/

/-- The first `total_read` bytes of `temp` are `line`. -/
structure ReadBuffer.Rep (b : ReadBuffer) (line : List Byte) : Prop where
  total : b.totalRead = BitVec.ofNat 64 line.length
  temp : line <+: b.temp.toList

theorem ReadBuffer.Rep.le (h : b.Rep line) : line.length ≤ 256 := by
  have := h.temp.length_le
  rwa [Vector.length_toList] at this

theorem ReadBuffer.Rep.toNat (h : b.Rep line) : b.totalRead.toNat = line.length := by
  have := h.le
  rw [h.total, BitVec.toNat_ofNat]
  omega

/-- A character stored at index `total_read`. -/
theorem ReadBuffer.Rep.push (h : b.Rep line) (hl : line.length < 256) (c : Byte) :
    ∃ temp, tempStore b.temp b.totalRead c = some temp ∧ Rep ⟨temp, b.totalRead + 1⟩ (line ++ [c]) := by
  have ht := h.toNat
  refine ⟨_, dif_pos (ht ▸ hl), ?_, ?_⟩
  · show b.totalRead + 1 = _
    rw [h.total, List.length_append, List.length_singleton, BitVec.ofNat_add]
    rfl
  · obtain ⟨r, hr⟩ := h.temp
    have hlen := congrArg List.length hr
    rw [List.length_append, Vector.length_toList] at hlen
    rw [Vector.toList_set, ← hr, ht, List.set_append_right _ _ (Nat.le_refl _), Nat.sub_self]
    cases r with
    | nil =>
      rw [List.length_nil] at hlen
      omega
    | cons x r => exact ⟨r, by rw [List.append_assoc]; rfl⟩

/-- The last character dropped. -/
theorem ReadBuffer.Rep.pop (h : b.Rep line) (hl : 0 < line.length) :
    Rep { b with totalRead := b.totalRead - 1 } line.dropLast := by
  refine ⟨?_, (List.dropLast_prefix line).trans h.temp⟩
  have hle := h.le
  apply BitVec.eq_of_toNat_eq
  show (b.totalRead - 1).toNat = _
  rw [BitVec.toNat_sub, h.toNat, List.length_dropLast, BitVec.toNat_ofNat, show (1 : U64).toNat = 1 from rfl]
  omega

theorem ReadBuffer.Rep.load (h : b.Rep line) {i : Nat} (hi : i < line.length) :
    tempLoad b.temp (BitVec.ofNat 64 i) = some (line.getD i 0) := by
  have hle := h.le
  have hn : (BitVec.ofNat 64 i).toNat = i := by
    rw [BitVec.toNat_ofNat]
    omega
  rw [tempLoad, dif_pos (by omega), List.getD_eq_getElem _ _ hi, h.temp.getElem hi, Vector.getElem_toList]
  exact congrArg some (congrArg b.temp.get (Fin.ext hn))

/-- A character erased or stored. -/
theorem readLoopAt_cons {rx : List Byte} (hl : b.totalRead < length) (hs : s.rx = c :: rx) (n : Nat) :
    readLoopAt length (n + 1) b s =
      if normalize c = 0x08 ∨ normalize c = 0x7F then
        if 0 < b.totalRead then
          readLoopAt length n { b with totalRead := b.totalRead - 1 }
            { s with rx := rx, tx := s.tx ++ [0x08] ++ [0x20] ++ [0x08] }
        else readLoopAt length n b { s with rx := rx }
      else
        match tempStore b.temp b.totalRead (normalize c) with
        | none => .ok none { s with rx := rx }
        | some temp =>
          if normalize c = 0x0A then
            .ok (some ⟨temp, b.totalRead + 1⟩) { s with rx := rx, tx := s.tx ++ [normalize c] }
          else readLoopAt length n ⟨temp, b.totalRead + 1⟩ { s with rx := rx, tx := s.tx ++ [normalize c] } := by
  have hget : uartGetc s = .ok c { s with rx := rx } := by rw [uartGetc, hs]
  rw [readLoopAt, if_pos hl, bind_ok hget]
  change (if normalize c = 0x08 ∨ normalize c = 0x7F then _ else _ : Exec (Option ReadBuffer)) _ = _
  by_cases hd : normalize c = 0x08 ∨ normalize c = 0x7F
  · rw [if_pos hd, if_pos hd]
    split <;> rfl
  · rw [if_neg hd, if_neg hd]
    show (match tempStore b.temp b.totalRead (normalize c) with
      | none => _
      | some _ => _ : Exec (Option ReadBuffer)) _ = _
    cases tempStore b.temp b.totalRead (normalize c) with
    | none => rfl
    | some temp =>
      have hput : uartPutc (normalize c) { s with rx := rx } =
        .ok () { s with rx := rx, tx := s.tx ++ [normalize c] } := rfl
      refine (bind_ok hput).trans ?_
      by_cases hn : normalize c = 0x0A
      · exact (congrFun (if_pos hn) _).trans (if_pos hn).symm
      · exact (congrFun (if_neg hn) _).trans (if_neg hn).symm

/-- The loop on the array is the loop on the line. -/
theorem readLoopAt_eq (hl : length.toNat ≤ 256) (fuel : Nat) : ∀ {b : ReadBuffer} {line : List Byte} (s : Hart),
    b.Rep line → ∃ r s', readLoop length fuel line s = finish r s' ∧
      match r with
      | .ok line' => ∃ b', b'.Rep line' ∧ readLoopAt length fuel b s = .ok (some b') s'
      | .error e => readLoopAt length fuel b s = .error e s' := by
  induction fuel with
  | zero => exact fun s _ => ⟨.error .waiting, s, rfl, rfl⟩
  | succ n ih =>
    intro b line s h
    have hlt : b.totalRead < length ↔ line.length < length.toNat := by rw [BitVec.lt_def, h.toNat]
    have hpos : 0 < b.totalRead ↔ 0 < line.length := by
      rw [BitVec.lt_def, h.toNat]
      rfl
    by_cases hll : line.length < length.toNat
    swap
    · refine ⟨.ok line, s, ?_, b, h, ?_⟩
      · rw [readLoop, if_neg hll]
        rfl
      · rw [readLoopAt, if_neg (mt hlt.mp hll)]
        rfl
    cases hrx : s.rx with
    | nil =>
      have hget : uartGetc s = .error .waiting s := by rw [uartGetc, hrx]
      refine ⟨.error .waiting, s, ?_, ?_⟩
      · rw [readLoop, if_pos hll]
        exact bind_error hget
      · show readLoopAt length (n + 1) b s = _
        rw [readLoopAt, if_pos (hlt.mpr hll)]
        exact bind_error hget
    | cons c rx =>
      obtain ⟨temp, hstore, hpush⟩ := h.push (by omega) (normalize c)
      rw [readLoop_cons hll hrx, readLoopAt_cons (hlt.mpr hll) hrx]
      simp only [hstore, hpos]
      split_ifs with hd hp hn
      · exact ih _ (h.pop hp)
      · exact ih _ h
      · exact ⟨.ok (line ++ [normalize c]), _, rfl, _, hpush, rfl⟩
      · exact ih _ hpush

/-- The copy from the array is the copy of the line. -/
theorem storeTemp_eq (h : b.Rep line) {n : Nat} (hn : n ≤ line.length) :
    storeTemp T buffer b.temp n = some <$> storeBytes T buffer line n := by
  induction n with
  | zero => rfl
  | succ n ih =>
    rw [storeTemp, storeBytes, ih (by omega), h.load (by omega)]
    simp only [map_eq_pure_bind, bind_assoc, pure_bind]

theorem copyTempToUser_eq (h : b.Rep line) : copyTempToUser T buffer b.temp b.totalRead =
    some <$> copyToUser T buffer line (BitVec.ofNat 64 line.length) := by
  have hn := h.toNat
  have ht := h.total
  rw [copyTempToUser, copyToUser, hn, ← ht, hn, storeTemp_eq h (Nat.le_refl _)]
  split
  · rfl
  · simp only [map_bind, bind_map_left, map_pure]

/-- `syscall_read` on its array is `syscallRead`: no access is past the end of `temp`. -/
theorem syscallReadAt_eq (temp : Vector Byte 256) (fd : U64) :
    syscallReadAt T temp fd buffer length = some <$> syscallRead T fd buffer length := by
  by_cases hfd : fd ≠ 0
  · rw [syscallReadAt, syscallRead, if_pos hfd, if_pos hfd]
    rfl
  obtain rfl := not_not.mp hfd
  by_cases hl : length = 0
  · rw [syscallReadAt, syscallRead, if_neg hfd, if_neg hfd, if_pos hl, if_pos hl]
    rfl
  funext s
  have hrep : ReadBuffer.Rep ⟨temp, 0⟩ [] := ⟨rfl, List.nil_prefix⟩
  have hlen : (readCap length).toNat ≤ 256 := by
    rw [readLength]
    omega
  obtain ⟨r, s', hloop, hr⟩ := readLoopAt_eq hlen (s.rx.length + 1) s hrep
  rw [syscallReadAt, if_neg hfd, if_neg hl]
  cases r with
  | error e =>
    rw [map_error (syscallRead_error T buffer hl hloop)]
    exact bind_error hr
  | ok line =>
    obtain ⟨b, hb, hr⟩ := hr
    have hread := syscallRead_line T buffer hl hloop
    refine (bind_ok hr).trans ?_
    dsimp only
    rw [copyTempToUser_eq hb, hb.total, bind_map_left]
    cases hc : copyToUser T buffer line (BitVec.ofNat 64 line.length) s' with
    | error e s'' => rw [bind_error hc, map_error (hread.trans (bind_error hc))]
    | ok ok s'' =>
      rw [bind_ok hc]
      cases ok
      · exact (map_ok (hread.trans (bind_ok hc))).symm
      · exact (map_ok (hread.trans (bind_ok hc))).symm

/-! ## The screen -/

/-- What is sent for a key. -/
def echoKey (line : List Byte) (c : Byte) : List Byte :=
  if c = 0x08 ∨ c = 0x7F then if 0 < line.length then [0x08, 0x20, 0x08] else [] else [normalize c]

/-- What is sent for the keys `input`, from `line` on. -/
def echo : List Byte → List Byte → List Byte
  | _, [] => []
  | line, c :: input => echoKey line c ++ echo (editKey line c) input

section Screen

variable {t t' : Terminal}

theorem Terminal.Shows.refl (t : Terminal) : t.Shows t [] := ⟨rfl, by simp, fun _ _ => rfl⟩

/-- A character that is no BS. -/
theorem Terminal.Shows.char (h : t.Shows t' line) (hc : c ≠ 0x08) : t.Shows (t'.put c) (line ++ [c]) := by
  have hput : t'.put c = ⟨Function.update t'.cells t'.cursor c, t'.cursor + 1⟩ := if_neg hc
  have hcur := h.cursor
  rw [hput]
  refine ⟨?_, fun i d hd => ?_, fun i hi => ?_⟩
  · show t'.cursor + 1 = _
    rw [hcur, List.length_append, List.length_singleton]
    rfl
  · show Function.update t'.cells t'.cursor c (t.cursor + i) = d
    rcases Nat.lt_trichotomy i line.length with hi | rfl | hi
    · rw [List.getElem?_append_left hi] at hd
      rw [Function.update_of_ne (by omega), h.line i d hd]
    · rw [List.getElem?_concat_length] at hd
      rw [hcur, Function.update_self]
      exact Option.some.inj hd
    · rw [List.getElem?_eq_none (by rw [List.length_append, List.length_singleton]; omega)] at hd
      cases hd
  · show Function.update t'.cells t'.cursor c i = _
    rw [Function.update_of_ne (by omega), h.left i hi]

/-- BS, a blank and BS erase the last character. -/
theorem Terminal.Shows.erase (h : t.Shows t' line) (hl : 0 < line.length) :
    t.Shows (t'.render [0x08, 0x20, 0x08]) line.dropLast := by
  have hcur := h.cursor
  have hrender : t'.render [0x08, 0x20, 0x08] =
      ⟨Function.update t'.cells (t'.cursor - 1) 0x20, t'.cursor - 1 + 1 - 1⟩ := rfl
  rw [hrender]
  refine ⟨?_, fun i d hd => ?_, fun i hi => ?_⟩
  · show t'.cursor - 1 + 1 - 1 = _
    rw [List.length_dropLast]
    omega
  · have hi : i < line.length - 1 := by
      have := (List.getElem?_eq_some_iff.mp hd).1
      rwa [List.length_dropLast] at this
    rw [List.getElem?_dropLast, if_pos hi] at hd
    show Function.update t'.cells (t'.cursor - 1) 0x20 (t.cursor + i) = d
    rw [Function.update_of_ne (by omega), h.line i d hd]
  · show Function.update t'.cells (t'.cursor - 1) 0x20 i = _
    rw [Function.update_of_ne (by omega), h.left i hi]

theorem Terminal.Shows.key (h : t.Shows t' line) (c : Byte) :
    t.Shows (t'.render (echoKey line c)) (editKey line c) := by
  rw [echoKey, editKey]
  split_ifs with hd hl
  · exact h.erase hl
  · rw [List.eq_nil_of_length_eq_zero (Nat.eq_zero_of_not_pos hl)] at h ⊢
    exact h
  · exact h.char fun hc => hd ((normalize_erases c).mp (.inl hc))

/-- What is sent keeps the line on the screen. -/
theorem Terminal.Shows.echo (input : List Byte) : ∀ {t' : Terminal} {line : List Byte}, t.Shows t' line →
    t.Shows (t'.render (RvOs.echo line input)) (input.foldl editKey line) := by
  induction input with
  | nil => exact fun h => h
  | cons c input ih =>
    intro t' line h
    rw [RvOs.echo, Terminal.render, List.foldl_append]
    exact ih (h.key c)

end Screen

theorem echo_append (input input' : List Byte) : ∀ line : List Byte,
    echo line (input ++ input') = echo line input ++ echo (input.foldl editKey line) input' := by
  induction input with
  | nil => exact fun line => rfl
  | cons c input ih =>
    intro line
    rw [List.cons_append, echo, echo, ih, List.append_assoc]
    rfl

/-! ## The keys -/

theorem edited_concat (keys : List Byte) (c : Byte) : edited (keys ++ [c]) = editKey (edited keys) c := by
  rw [edited, List.foldl_append]
  rfl

theorem editKey_length (line : List Byte) (c : Byte) : (editKey line c).length ≤ line.length + 1 := by
  rw [editKey]
  split
  · rw [List.length_dropLast]
    omega
  · rw [List.length_append, List.length_singleton]

theorem Takes.left {keys : List Byte} (h : Takes limit (keys ++ input)) : Takes limit keys := fun k hk => by
  have hs := h k (by rw [List.length_append]; omega)
  rwa [List.take_append_of_le_length (by omega)] at hs

theorem Takes.not_stops {keys : List Byte} (h : Takes limit (keys ++ c :: input)) : ¬ Stops limit keys := by
  have hs := h keys.length (by rw [List.length_append, List.length_cons]; omega)
  rwa [List.take_left] at hs

theorem Stops.newline {keys : List Byte} (hn : normalize c = 0x0A) : Stops limit (keys ++ [c]) :=
  .inl (by rw [List.getLast?_concat, Option.map_some, hn])

/-- The line never gets past the limit. -/
theorem Takes.length_le (h : Takes limit input) : (edited input).length ≤ limit := by
  induction input using List.reverseRecOn with
  | nil => exact Nat.zero_le limit
  | append_singleton keys c ih =>
    have hle := ih h.left
    have hne : (edited keys).length ≠ limit := fun e => h.not_stops (.inr e)
    have := editKey_length (edited keys) c
    rw [edited_concat]
    omega

/-- Keys that are all taken, and do not end the line. -/
def Typed (limit : Nat) (line input : List Byte) : Prop := ∀ pre c post, input = pre ++ c :: post →
  (pre.foldl editKey line).length < limit ∧ normalize c ≠ 0x0A

theorem Takes.typed (h : Takes limit input) (hlast : ∀ keys c, input = keys ++ [c] → normalize c ≠ 0x0A) :
    Typed limit [] input := by
  rintro pre c post rfl
  have hpre : Takes limit pre := h.left
  have hle := hpre.length_le
  have hne : (edited pre).length ≠ limit := fun e => h.not_stops (.inr e)
  refine ⟨Nat.lt_of_le_of_ne hle hne, ?_⟩
  cases post with
  | nil => exact hlast pre c rfl
  | cons d post =>
    rw [List.append_cons] at h
    exact fun hn => h.not_stops (.newline hn)

/-- The loop takes one key after the other, -/
theorem readLoop_keys (fuel : Nat) (rest : List Byte) (input : List Byte) : ∀ (line : List Byte) (s : Hart),
    Typed length.toNat line input → s.rx = input ++ rest → readLoop length (fuel + input.length) line s =
      readLoop length fuel (input.foldl editKey line) { s with rx := rest, tx := s.tx ++ echo line input } := by
  induction input with
  | nil =>
    intro line s _ hs
    have hs' : ({ s with rx := rest, tx := s.tx ++ echo line [] } : Hart) = s := by
      rw [echo, List.append_nil, ← List.nil_append rest, ← hs]
    rw [hs']
    rfl
  | cons c input ih =>
    intro line s ht hs
    obtain ⟨(hl : line.length < length.toNat), hn⟩ := ht [] c input rfl
    have ht' : Typed length.toNat (editKey line c) input := fun pre d post e => ht (c :: pre) d post (by rw [e]; rfl)
    rw [List.length_cons, ← Nat.add_assoc, readLoop_cons hl hs, List.foldl_cons, echo, ← List.append_assoc]
    simp only [normalize_erases, if_neg hn]
    rw [echoKey]
    rw [editKey] at ht' ⊢
    split_ifs at ht' ⊢ with hd hp
    · rw [ih _ _ ht' rfl]
      simp only [List.append_assoc, List.cons_append, List.nil_append]
    · rw [List.eq_nil_of_length_eq_zero (Nat.eq_zero_of_not_pos hp)] at ht' ⊢
      rw [List.append_nil]
      exact ih _ _ ht' rfl
    · exact ih _ _ ht' rfl

/-- from an empty line on. -/
theorem readLoop_typed (ht : Typed length.toNat [] input) (hs : s.rx = input ++ rest) (fuel : Nat) :
    readLoop length (fuel + input.length) [] s =
      readLoop length fuel (edited input) { s with rx := rest, tx := s.tx ++ echo [] input } :=
  readLoop_keys fuel rest input [] s ht hs

section Input

variable {fuel : Nat} (h : Takes length.toNat input) (hs : s.rx = input ++ rest) (hf : s.rx.length < fuel)

include h hs hf

/-- Where the editor has not stopped, the loop goes on with the line. -/
theorem readLoop_goes_on (hns : ¬ Stops length.toNat input) : ∃ n, rest.length < n ∧
    readLoop length fuel [] s = readLoop length n (edited input)
        { s with rx := rest, tx := s.tx ++ echo [] input } := by
  have hlen := congrArg List.length hs
  rw [List.length_append] at hlen
  obtain ⟨n, rfl⟩ := Nat.exists_eq_add_of_le' (show input.length ≤ fuel by omega)
  exact ⟨n, by omega, readLoop_typed (h.typed fun keys c e hn => hns (e ▸ .newline hn)) hs n⟩

/-- Where it has stopped, the loop ends. -/
theorem readLoop_stops (hstop : Stops length.toNat input) : readLoop length fuel [] s =
    .ok (edited input) { s with rx := rest, tx := s.tx ++ echo [] input } := by
  have hlen := congrArg List.length hs
  rw [List.length_append] at hlen
  by_cases hlf : input.getLast?.map normalize = some 0x0A
  · obtain ⟨c, hc, hn⟩ := Option.map_eq_some_iff.mp hlf
    obtain ⟨keys, rfl⟩ := List.getLast?_eq_some_iff.mp hc
    have hne : (edited keys).length ≠ length.toNat := fun e => h.not_stops (.inr e)
    have hle := Takes.length_le h.left
    have ht := h.left.typed fun keys' d e hd => h.not_stops (e ▸ .newline hd)
    rw [List.length_append, List.length_singleton] at hlen
    obtain ⟨n, rfl⟩ := Nat.exists_eq_add_of_le' (show keys.length + 1 ≤ fuel by omega)
    replace hs : s.rx = keys ++ c :: rest := by rw [hs, List.append_assoc]; rfl
    have hd : ¬ (normalize c = 0x08 ∨ normalize c = 0x7F) := by
      rw [hn]
      decide
    have hkey : editKey (edited keys) c = edited keys ++ [normalize c] := if_neg (mt (normalize_erases c).mpr hd)
    have hecho : echoKey (edited keys) c = [normalize c] := if_neg (mt (normalize_erases c).mpr hd)
    have hloop := readLoop_typed ht hs (n + 1)
    rw [show n + 1 + keys.length = n + (keys.length + 1) by omega] at hloop
    have hsent : echo [] (keys ++ [c]) = echo [] keys ++ [normalize c] := by
      rw [echo_append, ← hecho]
      exact congrArg _ (List.append_nil _)
    rw [hloop, readLoop_cons (Nat.lt_of_le_of_ne hle hne) rfl, if_neg hd, if_pos hn, edited_concat, hkey, hsent,
      ← List.append_assoc]
  · have hfull := hstop.resolve_left hlf
    obtain ⟨n, rfl⟩ := Nat.exists_eq_add_of_le' (show input.length + 1 ≤ fuel by omega)
    have hloop := readLoop_typed (h.typed fun keys c e hn =>
        hlf (by rw [e, List.getLast?_concat, Option.map_some, hn])) hs (n + 1)
    rw [show n + 1 + input.length = n + (input.length + 1) by omega] at hloop
    rw [hloop, readLoop, if_neg (show ¬ (edited input).length < length.toNat by omega)]
    rfl

end Input

/-- The loop only sends. -/
theorem readLoop_sends (length : U64) (fuel : Nat) : ∀ (line : List Byte) (s : Hart),
    s.tx <+: (final (readLoop length fuel line s)).tx := by
  induction fuel with
  | zero => exact fun line s => List.prefix_rfl
  | succ n ih =>
    intro line s
    by_cases hl : line.length < length.toNat
    swap
    · rw [readLoop, if_neg hl]
      exact List.prefix_rfl
    cases hrx : s.rx with
    | nil =>
      have hget : uartGetc s = .error .waiting s := by rw [uartGetc, hrx]
      rw [readLoop, if_pos hl, bind_error hget]
      exact List.prefix_rfl
    | cons c rx =>
      rw [readLoop_cons hl hrx]
      split_ifs
      · refine List.IsPrefix.trans ?_ (ih _ _)
        rw [List.append_assoc, List.append_assoc]
        exact List.prefix_append ..
      · exact ih line { s with rx := rx }
      · exact List.prefix_append ..
      · refine List.IsPrefix.trans ?_ (ih _ _)
        exact List.prefix_append ..

/-! ## The call -/

theorem copyToUser_tx (T : Translation) (buffer : U64) (src : List Byte) (size : U64) (s : Hart) :
    (final (copyToUser T buffer src size s)).tx = s.tx := by
  by_cases hn : buffer = 0 ∧ size ≠ 0
  · rw [copyToUser, if_pos hn]
    rfl
  by_cases hz : size = 0
  · rw [copyToUser, if_neg hn, hz]
    rfl
  have hb : buffer ≠ 0 := fun h => hn ⟨h, hz⟩
  rcases allows_or_first T .store buffer size.toNat with hall | ⟨i, hi, hok, hf⟩
  · rw [copyToUser_ok hb hall]
    rfl
  · rw [copyToUser_fault hb hi hok hf]
    rfl

variable (T buffer) in
/-- What a call sends its loop sends. -/
theorem syscallRead_tx (hl : length ≠ 0) (s : Hart) : (final (syscallRead T 0 buffer length s)).tx =
    (final (readLoop (readCap length) (s.rx.length + 1) [] s)).tx := by
  cases hloop : readLoop (readCap length) (s.rx.length + 1) [] s with
  | error e s' =>
    rw [syscallRead_error T buffer hl hloop]
    rfl
  | ok line s' =>
    have htx := copyToUser_tx T buffer line (BitVec.ofNat 64 line.length) s'
    rw [syscallRead_line T buffer hl hloop]
    cases hc : copyToUser T buffer line (BitVec.ofNat 64 line.length) s' with
    | error e s'' =>
      rw [hc] at htx
      rw [bind_error hc]
      exact htx
    | ok ok s'' =>
      rw [hc] at htx
      rw [bind_ok hc]
      cases ok
      · exact htx
      · exact htx

/-- The bytes stored, at addresses apart. -/
theorem storedMem_apply {m : Mem} {n i : Nat} (hinj : ∀ j < n, ∀ k < n,
    T.phys (byteAddr buffer j) = T.phys (byteAddr buffer k) → j = k) (hi : i < n) :
    storedMem T m buffer line n (T.phys (byteAddr buffer i)) = line.getD i 0 := by
  induction n with
  | zero => omega
  | succ n ih =>
    rw [storedMem]
    by_cases hin : i = n
    · rw [hin, Mem.write8_self]
    · rw [Mem.write8_of_ne _ _ fun e => hin (hinj i hi n (Nat.lt_succ_self n) e)]
      exact ih (fun j hj k hk => hinj j (by omega) k (by omega)) (by omega)

/-- A range of a page's size has no two addresses with one physical address. -/
theorem phys_inj (hT : ∀ va pa fl, T va = some (pa, fl) → pa.toNat % 4096 = va.toNat % 4096) {n : Nat} (hn : n ≤ 4096)
    (hw : ∀ i < n, T.Allows .store (byteAddr buffer i)) : ∀ j < n, ∀ k < n,
      T.phys (byteAddr buffer j) = T.phys (byteAddr buffer k) → j = k := by
  have hoff : ∀ i < n, (T.phys (byteAddr buffer i)).toNat % 4096 = (buffer.toNat + i) % 4096 := by
    intro i hi
    obtain ⟨pa, fl, ht, -⟩ := hw i hi
    rw [Translation.phys, ht]
    show pa.toNat % 4096 = _
    rw [hT _ _ _ ht, byteAddr, BitVec.toNat_add, BitVec.toNat_ofNat]
    omega
  intro j hj k hk e
  have h₁ := hoff j hj
  have h₂ := hoff k hk
  rw [e] at h₁
  omega

section Call

variable (hs : s.rx = input ++ rest) (h : Takes (min length.toNat 256) input)

include hs h

/-- What the loop of a call sends first. -/
theorem readLoop_sent : s.tx ++ echo [] input <+: (final (readLoop (readCap length) (s.rx.length + 1) [] s)).tx := by
  rw [← readLength] at h
  by_cases hstop : Stops (readCap length).toNat input
  · rw [readLoop_stops h hs (Nat.lt_succ_self _) hstop]
    exact List.prefix_rfl
  · obtain ⟨n, -, hloop⟩ := readLoop_goes_on h hs (Nat.lt_succ_self _) hstop
    rw [hloop]
    exact readLoop_sends _ n (edited input) { s with rx := rest, tx := s.tx ++ echo [] input }

/-- A call whose editor stops. -/
theorem syscallRead_stops (hl : length ≠ 0) (hb : buffer ≠ 0)
    (hT : ∀ va pa fl, T va = some (pa, fl) → pa.toNat % 4096 = va.toNat % 4096)
    (hw : ∀ i < min length.toNat 256, T.Allows .store (byteAddr buffer i))
    (hstop : Stops (min length.toNat 256) input) :
    ∃ s', syscallRead T 0 buffer length s = .ok (BitVec.ofNat 64 (edited input).length) s' ∧
      ReadsLine T buffer (edited input) rest s s' := by
  rw [← readLength] at h hstop
  have hloop := readLoop_stops h hs (Nat.lt_succ_self _) hstop
  have hle := h.length_le
  rw [readLength] at hle
  have hn : (BitVec.ofNat 64 (edited input).length).toNat = (edited input).length := by
    rw [BitVec.toNat_ofNat]
    omega
  have hcopy : copyToUser T buffer (edited input) (BitVec.ofNat 64 (edited input).length)
      { s with rx := rest, tx := s.tx ++ echo [] input } = _ := copyToUser_ok hb fun i hi => hw i (by omega)
  rw [hn] at hcopy
  refine ⟨⟨storedMem T s.mem buffer (edited input) (edited input).length, s.sstatus, rest, s.tx ++ echo [] input⟩,
    ?_, rfl, fun i c hc => ?_, fun a ha => ?_, rfl⟩
  · rw [syscallRead_line T buffer hl hloop]
    exact bind_ok hcopy
  · obtain ⟨hi, rfl⟩ := List.getElem?_eq_some_iff.mp hc
    rw [← List.getD_eq_getElem _ 0 hi]
    exact storedMem_apply (phys_inj hT (by omega) fun i hi => hw i (by omega)) hi
  · by_contra hne
    obtain ⟨i, hi, he⟩ := storedMem_changed hne
    exact ha i hi he.symm

end Call

/-- The same, when nothing comes after the input. -/
theorem readLoop_sent_all (h : Takes (min length.toNat 256) input) (s : Hart) :
    (final (readLoop (readCap length) (input.length + 1) [] { s with rx := input })).tx = s.tx ++ echo [] input := by
  rw [← readLength] at h
  have hs : ({ s with rx := input } : Hart).rx = input ++ [] := (List.append_nil input).symm
  by_cases hstop : Stops (readCap length).toNat input
  · rw [readLoop_stops h hs (Nat.lt_succ_self _) hstop]
    rfl
  · obtain ⟨n, hn, hloop⟩ := readLoop_goes_on h hs (Nat.lt_succ_self _) hstop
    obtain ⟨n, rfl⟩ := Nat.exists_eq_succ_of_ne_zero (Nat.ne_of_gt hn)
    have hlt : (edited input).length < (readCap length).toNat :=
      Nat.lt_of_le_of_ne h.length_le fun e => hstop (.inr e)
    have hget : uartGetc { s with rx := [], tx := s.tx ++ echo [] input } =
      .error .waiting { s with rx := [], tx := s.tx ++ echo [] input } := rfl
    rw [hloop, readLoop, if_pos hlt, bind_error hget]
    rfl

/-- `read` on an input that the editor takes: what it has sent shows the line on
any terminal, and when the editor stops it stores the line and returns its length. -/
theorem syscallRead_edits {m : Mem} {root : Addr} (hl : length ≠ 0) (hb : buffer ≠ 0)
    (hw : ∀ i < min length.toNat 256, (Translation.ofTables m root).Allows .store (byteAddr buffer i))
    (temp : Vector Byte 256) (s : Hart) (input rest : List Byte) (hs : s.rx = input ++ rest)
    (h : Takes (min length.toNat 256) input) :
    (∃ sent, (final (syscallReadAt (.ofTables m root) temp 0 buffer length { s with rx := input })).tx = s.tx ++ sent ∧
      s.tx ++ sent <+: (final (syscallReadAt (.ofTables m root) temp 0 buffer length s)).tx ∧
      ∀ t : Terminal, t.Shows (t.render sent) (edited input)) ∧
    (Stops (min length.toNat 256) input → ∃ s', syscallReadAt (.ofTables m root) temp 0 buffer length s =
        .ok (some (BitVec.ofNat 64 (edited input).length)) s' ∧
      ReadsLine (.ofTables m root) buffer (edited input) rest s s') := by
  simp only [syscallReadAt_eq, final_map, syscallRead_tx _ _ hl]
  refine ⟨⟨echo [] input, readLoop_sent_all h s, readLoop_sent hs h, fun t => (Terminal.Shows.refl t).echo input⟩,
    fun hstop => ?_⟩
  obtain ⟨s', he, hreads⟩ := syscallRead_stops hs h hl hb (fun _ _ _ ht => (sv39Translate_bits ht).2) hw hstop
  exact ⟨s', map_ok he, hreads⟩

/-- A line with a character taken back, into the `.bss` of a user process. -/
theorem syscallRead_edits_sample : ∃ T, SampleProcess T ∧ ∀ temp s, s.rx = [0x61, 0x62, 0x7F, 0x63, 0x0D, 0x64] →
    ∃ s', syscallReadAt T temp 0 0x401000 64 s = .ok (some 3) s' ∧
      ReadsLine T 0x401000 [0x61, 0x63, 0x0A] [0x64] s s' := by
  obtain ⟨T, h⟩ := sample_process
  obtain ⟨b', s₁, -, -, rfl⟩ := h.process
  refine ⟨_, h, fun temp s hs => ?_⟩
  have hw : ∀ i < min (64 : U64).toNat 256, (Translation.ofTables s₁.mem (satpRoot b'.satp)).Allows .store
      (byteAddr 0x401000 i) := by
    intro i hi
    have hi : i < 64 := hi
    obtain ⟨pa, ht⟩ := h.userBss (show i < 4096 by omega)
    exact ⟨pa, _, ht, by decide⟩
  exact (syscallRead_edits (by decide) (by decide) hw temp s [0x61, 0x62, 0x7F, 0x63, 0x0D] [0x64] hs (by decide)).2
    (.inl (by decide))

end RvOs
