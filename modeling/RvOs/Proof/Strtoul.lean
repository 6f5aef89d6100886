import RvOs.Proof.Strchr
import RvOs.Spec.Strtoul

/-!
# What `strtoul` reads

The code skips blanks, takes 0x or 0X for a prefix of base 0 only, and reads
digits modulo 2⁶⁴ (`strtoul_eq`). By the kinds of numerals this is the
standard's result exactly on the strings `Convertible` describes
(`strtoul_converts_iff`).
-/

namespace RvOs

variable {text s after : List Byte} {c : Byte} {b base i : Nat}

/-! ## Digits -/

/-- The letters from g on are no digits to the code. -/
theorem strtoulDigit_eq (c : Byte) :
    strtoulDigit c = (digitValue c).bind fun d => if d < 16 then some (d : Int) else none := by
  have hle (x : Byte) : x ≤ c ↔ x.toNat ≤ c.toNat := Iff.rfl
  have hge (x : Byte) : c ≤ x ↔ c.toNat ≤ x.toNat := Iff.rfl
  simp only [strtoulDigit, digitValue, hle, hge, BitVec.reduceToNat]
  split_ifs <;> simp <;> omega

theorem digits_of_none (h : digitValue c = none) : digits b (c :: s) = [] := by
  rw [digits, h]

theorem digits_of_some {d : Nat} (h : digitValue c = some d) :
    digits b (c :: s) = if d < b then d :: digits b s else [] := by
  rw [digits, h]

/-- The loop over the digits, after those of `acc`. -/
theorem strtoulLoop_eq (hb : b ≤ 16) (hs : CString s) (acc : List Nat) (i : Nat) :
    strtoulLoop b (BitVec.ofNat 64 (numeral b acc)) i (s ++ 0 :: after) =
      some (BitVec.ofNat 64 (numeral b (acc ++ digits b s)), i + (digits b s).length) := by
  induction s generalizing acc i with
  | nil => simp [strtoulLoop, digits]
  | cons c s ih =>
    obtain ⟨hc, hs⟩ := cString_cons.mp hs
    rw [List.cons_append, strtoulLoop, if_pos hc, strtoulDigit_eq]
    cases hv : digitValue c with
    | none => simp [digits_of_none hv]
    | some d =>
      rw [Option.bind_some, digits_of_some hv]
      by_cases hd : d < b
      · have hacc : BitVec.ofNat 64 (numeral b acc) * BitVec.ofInt 64 b + BitVec.ofInt 64 d =
            BitVec.ofNat 64 (numeral b (acc ++ [d])) := by
          rw [numeral_concat, BitVec.ofNat_add, BitVec.ofNat_mul, BitVec.ofInt_natCast, BitVec.ofInt_natCast]
        rw [if_pos (by omega)]
        show (if (b : Int) ≤ d then _ else _) = _
        rw [if_neg (by omega), if_pos hd, hacc, ih hs, List.append_assoc, List.length_cons, Nat.add_right_comm,
          Nat.add_assoc]
        rfl
      · by_cases hd' : d < 16
        · simp [hd, hd', Nat.le_of_not_lt hd]
        · simp [hd, hd']

/-! ## The whole string -/

theorem skipBlanks_eq (text after : List Byte) (i : Nat) : skipBlanks i (text ++ 0 :: after) =
    some (i + (text.takeWhile isBlank).length, text.dropWhile isBlank ++ 0 :: after) := by
  induction text generalizing i with
  | nil => simp [skipBlanks]
  | cons c text ih =>
    rw [List.cons_append, skipBlanks]
    by_cases hc : c = 0x20 ∨ c = 0x09
    · have hblank : isBlank c = true := by simpa [isBlank] using hc
      rw [if_pos hc, ih, List.takeWhile_cons_of_pos hblank, List.dropWhile_cons_of_pos hblank, List.length_cons,
        Nat.add_right_comm, Nat.add_assoc]
    · have hblank : ¬ isBlank c = true := by simpa [isBlank] using hc
      rw [if_neg hc, List.takeWhile_cons_of_neg hblank, List.dropWhile_cons_of_neg hblank]
      rfl

/-- The base that the code takes and the length of the prefix that it skips. -/
def readBase (base : Nat) (s : List Byte) : Nat × Nat :=
  if base = 0 then if startsHex s then (16, 2) else (10, 0) else (base, 0)

theorem strtoulBase_eq (base i : Nat) (s after : List Byte) : strtoulBase base i (s ++ 0 :: after) =
    some (((readBase base s).1 : Int), i + (readBase base s).2, s.drop (readBase base s).2 ++ 0 :: after) := by
  by_cases h0 : base = 0
  swap
  · rw [strtoulBase.eq_def, if_neg (by omega), readBase, if_neg h0]
    rfl
  rw [strtoulBase.eq_def, if_pos (by omega), readBase, if_pos h0]
  cases s with
  | nil => rfl
  | cons c s =>
    by_cases hc : c = 0x30
    swap
    · have h : startsHex (c :: s) = false := by
        cases s with
        | nil => rfl
        | cons x s => rw [startsHex, beq_false_of_ne hc, Bool.false_and]
      rw [h]
      exact if_neg hc
    refine (if_pos hc).trans ?_
    cases s with
    | nil => rfl
    | cons x s =>
      have h : startsHex (c :: x :: s) = true ↔ x = 0x78 ∨ x = 0x58 := by
        rw [startsHex, hc, BEq.rfl, Bool.true_and, Bool.or_eq_true, beq_iff_eq, beq_iff_eq]
      by_cases hx : x = 0x78 ∨ x = 0x58
      · rw [if_pos (h.mpr hx)]
        exact if_pos hx
      · rw [if_neg (mt h.mp hx)]
        exact if_neg hx

/-- The digits that the code reads. -/
def readDigits (base : Nat) (s : List Byte) : List Nat := digits (readBase base s).1 (s.drop (readBase base s).2)

theorem CString.drop (h : CString s) (k : Nat) : CString (s.drop k) := fun hm => h (List.mem_of_mem_drop hm)

theorem CString.dropWhile (h : CString s) (p : Byte → Bool) : CString (s.dropWhile p) :=
  fun hm => h ((List.dropWhile_suffix p).subset hm)

theorem readBase_le (hb : base ≤ 16) (s : List Byte) : (readBase base s).1 ≤ 16 := by
  rw [readBase]
  split_ifs <;> simp [hb]

/-- What the code returns. -/
theorem strtoul_eq (ht : CString text) (hb : base ≤ 16) (after : List Byte) :
    strtoul (text ++ 0 :: after) base = some
      (BitVec.ofNat 64 (numeral (readBase base (text.dropWhile isBlank)).1 (readDigits base (text.dropWhile isBlank))),
        (text.takeWhile isBlank).length + (readBase base (text.dropWhile isBlank)).2 +
          (readDigits base (text.dropWhile isBlank)).length) := by
  have hs := ht.dropWhile isBlank
  rw [strtoul, skipBlanks_eq, Nat.zero_add]
  show (strtoulBase base _ _).bind (fun r => strtoulLoop r.1 0 r.2.1 r.2.2) = _
  rw [strtoulBase_eq, Option.bind_some]
  exact strtoulLoop_eq (readBase_le hb _) (hs.drop _) [] _

/-! ## Numerals -/

theorem digits_zero (hb : 0 < b) (s : List Byte) : digits b (0x30 :: s) = 0 :: digits b s := by
  rw [digits_of_some (show digitValue 0x30 = some 0 by decide), if_pos hb]

/-- A numeral that starts with 0. -/
theorem digits_ne_nil (hb : 0 < b) (h : s.head? = some 0x30) : digits b s ≠ [] := by
  obtain ⟨s, rfl⟩ := List.head?_eq_some_iff.mp h
  rw [digits_zero hb]
  exact List.cons_ne_nil _ _

/-- Before an x only the 0 is a digit. -/
theorem digits_hex (hb : 0 < b) (hb' : b ≤ 16) (h : startsHex s = true) : s.head? = some 0x30 ∧ digits b s = [0] := by
  obtain _ | ⟨c, _ | ⟨x, s⟩⟩ := s
  · cases h
  · cases h
  rw [startsHex, Bool.and_eq_true, beq_iff_eq, Bool.or_eq_true, beq_iff_eq, beq_iff_eq] at h
  obtain ⟨rfl, hx⟩ := h
  have hv : digitValue x = some 33 := by rcases hx with rfl | rfl <;> decide
  rw [digits_zero hb, digits_of_some hv, if_neg (by omega)]
  exact ⟨rfl, rfl⟩

/-- More digits are read in a higher base. -/
theorem digits_mono {b' : Nat} (h : b ≤ b') (s : List Byte) : digits b s <+: digits b' s := by
  induction s with
  | nil => exact List.prefix_rfl
  | cons c s ih =>
    cases hv : digitValue c with
    | none =>
      rw [digits_of_none hv]
      exact List.nil_prefix
    | some d =>
      rw [digits_of_some hv, digits_of_some hv]
      by_cases hd : d < b
      · rw [if_pos hd, if_pos (hd.trans_le h)]
        exact List.cons_prefix_cons.mpr ⟨rfl, ih⟩
      · rw [if_neg hd]
        exact List.nil_prefix

/-- The base, the length of the prefix and the digits that the code reads. -/
def readNumeral (base : Nat) (s : List Byte) : Nat × Nat × List Nat :=
  ((readBase base s).1, (readBase base s).2, readDigits base s)

/-- A numeral as the code reads it and as the standard has it: the values are equal, and so are the ends. -/
def SameNumeral (read standard : Nat × Nat × List Nat) : Prop :=
  numeral read.1 read.2.2 % 2 ^ 64 = min (numeral standard.1 standard.2.2) ULONG_MAX ∧
    read.2.1 + read.2.2.length = standard.2.1 + standard.2.2.length

theorem sameNumeral_self (b skip : Nat) (ds : List Nat) :
    SameNumeral (b, skip, ds) (b, skip, ds) ↔ Fits64 (numeral b ds) := and_iff_left rfl

theorem hasHexPrefix_iff : hasHexPrefix s = true ↔ startsHex s = true ∧ digits 16 (s.drop 2) ≠ [] := by
  rw [hasHexPrefix, Bool.and_eq_true, Bool.not_eq_true', List.isEmpty_eq_false_iff]

theorem readBase_zero (s : List Byte) : readBase 0 s = if startsHex s then (16, 2) else (10, 0) := if_pos rfl

theorem numeralBase_zero (s : List Byte) : numeralBase 0 s =
    if hasHexPrefix s then (16, 2) else if s.head? = some 0x30 then (8, 0) else (10, 0) := by
  simp [numeralBase]

theorem numeralBase_ne (h0 : base ≠ 0) (s : List Byte) :
    numeralBase base s = if base = 16 ∧ hasHexPrefix s then (16, 2) else (base, 0) := by
  simp [numeralBase, h0]

/-- The kinds of numerals, for base 0 -/
theorem sameNumeral_zero (s : List Byte) :
    SameNumeral (readNumeral 0 s) (standardNumeral 0 s) ↔ PlainNumeral 0 s := by
  have hplain : PlainNumeral 0 s = _ := if_pos rfl
  rw [readNumeral, readDigits, readBase_zero, standardNumeral, numeralBase_zero, hplain]
  by_cases hx : hasHexPrefix s = true
  · rw [if_pos hx, if_pos hx, if_pos (hasHexPrefix_iff.mp hx).1]
    exact sameNumeral_self ..
  rw [if_neg hx, if_neg hx]
  by_cases hs : startsHex s = true
  · obtain ⟨hhead, hds⟩ := digits_hex (b := 8) (by decide) (by decide) hs
    have hnil : digits 16 (s.drop 2) = [] := by
      by_contra hne
      exact hx (hasHexPrefix_iff.mpr ⟨hs, hne⟩)
    rw [if_pos hs, if_pos hs, if_pos hhead]
    refine iff_of_false (fun h => ?_) id
    have hend : 2 + (digits 16 (s.drop 2)).length = 0 + (digits 8 s).length := h.2
    rw [hnil, hds] at hend
    cases hend
  rw [if_neg hs, if_neg hs]
  by_cases hhead : s.head? = some 0x30
  · rw [if_pos hhead, if_pos hhead]
    show _ ∧ 0 + (digits 10 s).length = 0 + (digits 8 s).length ↔ _
    rw [Nat.zero_add, Nat.zero_add, and_comm]
    refine and_congr_left' ⟨fun h => ?_, fun h => by rw [h]⟩
    exact ((digits_mono (by decide) s).eq_of_length h.symm).symm
  · rw [if_neg hhead, if_neg hhead]
    exact sameNumeral_self ..

/-- and for other bases. -/
theorem sameNumeral_base (h0 : base ≠ 0) (s : List Byte) :
    SameNumeral (readNumeral base s) (standardNumeral base s) ↔ PlainNumeral base s := by
  have hplain : PlainNumeral base s = _ := if_neg h0
  have hread : readBase base s = _ := if_neg h0
  rw [readNumeral, readDigits, hread, standardNumeral, numeralBase_ne h0, hplain]
  by_cases hx : base = 16 ∧ hasHexPrefix s = true
  · obtain ⟨rfl, hx⟩ := hx
    obtain ⟨hs, hne⟩ := hasHexPrefix_iff.mp hx
    rw [if_pos ⟨rfl, hx⟩]
    refine iff_of_false (fun h => ?_) fun h => h.1 rfl hx
    have hend : 0 + (digits 16 s).length = 2 + (digits 16 (s.drop 2)).length := h.2
    rw [(digits_hex (by decide) (by decide) hs).2] at hend
    have hpos := List.length_pos_of_ne_nil hne
    have : 0 + [0].length = 1 := rfl
    omega
  · rw [if_neg hx]
    exact (sameNumeral_self ..).trans (and_iff_right fun h16 hh => hx ⟨h16, hh⟩).symm

theorem sameNumeral_iff (base : Nat) (s : List Byte) :
    SameNumeral (readNumeral base s) (standardNumeral base s) ↔ PlainNumeral base s := by
  by_cases h0 : base = 0
  · rw [h0]
    exact sameNumeral_zero s
  · exact sameNumeral_base h0 s

/-- Without a numeral the code reads no digits and skips no prefix. -/
theorem readNumeral_none (h : (standardNumeral base s).2.2 = []) :
    readDigits base s = [] ∧ (readBase base s).2 = 0 := by
  rw [standardNumeral] at h
  by_cases h0 : base = 0
  swap
  · rw [numeralBase_ne h0] at h
    have hread : readBase base s = _ := if_neg h0
    rw [readDigits, hread]
    by_cases hx : base = 16 ∧ hasHexPrefix s = true
    · rw [if_pos hx] at h
      exact absurd h (hasHexPrefix_iff.mp hx.2).2
    · rw [if_neg hx] at h
      exact ⟨h, rfl⟩
  subst h0
  rw [numeralBase_zero] at h
  by_cases hx : hasHexPrefix s = true
  · rw [if_pos hx] at h
    exact absurd h (hasHexPrefix_iff.mp hx).2
  by_cases hhead : s.head? = some 0x30
  · rw [if_neg hx, if_pos hhead] at h
    exact absurd h (digits_ne_nil (by decide) hhead)
  rw [if_neg hx, if_neg hhead] at h
  have hs : ¬ startsHex s = true := fun hs => hhead (digits_hex (b := 16) (by decide) (by decide) hs).1
  rw [readDigits, readBase_zero, if_neg hs]
  exact ⟨h, rfl⟩

/-! ## White space -/

theorem isSpace_of_isBlank (h : isBlank c = true) : isSpace c = true := by
  rw [isBlank, Bool.or_eq_true, beq_iff_eq, beq_iff_eq] at h
  rcases h with rfl | rfl <;> decide

/-- White space is blanks and what white space follows them. -/
theorem space_split (text : List Byte) :
    text.takeWhile isSpace = text.takeWhile isBlank ++ (text.dropWhile isBlank).takeWhile isSpace ∧
      text.dropWhile isSpace = (text.dropWhile isBlank).dropWhile isSpace := by
  induction text with
  | nil => exact ⟨rfl, rfl⟩
  | cons c text ih =>
    by_cases hc : isBlank c = true
    · have hs := isSpace_of_isBlank hc
      rw [List.takeWhile_cons_of_pos hs, List.takeWhile_cons_of_pos hc, List.dropWhile_cons_of_pos hs,
        List.dropWhile_cons_of_pos hc, ih.1]
      exact ⟨rfl, ih.2⟩
    · rw [List.takeWhile_cons_of_neg hc, List.dropWhile_cons_of_neg hc]
      exact ⟨rfl, rfl⟩

theorem length_blanks_eq_zero (text : List Byte) :
    (text.takeWhile isBlank).length = 0 ↔ ¬ text.head?.any isBlank = true := by
  cases text with
  | nil => simp
  | cons c text =>
    by_cases hc : isBlank c = true
    · simp [hc]
    · simp [hc]

/-- The code stops at other white space. -/
theorem readNumeral_space (base : Nat) (hc : isSpace c = true) (hb : ¬ isBlank c = true) (s : List Byte) :
    readDigits base (c :: s) = [] ∧ (readBase base (c :: s)).2 = 0 := by
  have hv : digitValue c = none ∧ c ≠ 0x30 := by
    revert hb hc
    revert c
    decide
  have hx : ¬ startsHex (c :: s) = true := fun hx =>
    hv.2 (Option.some.inj (digits_hex (b := 16) (by decide) (by decide) hx).1)
  have hread : (readBase base (c :: s)).2 = 0 := by
    rw [readBase, if_neg hx]
    split_ifs <;> rfl
  rw [readDigits, hread]
  exact ⟨digits_of_none hv.1, rfl⟩

/-! ## The result -/

theorem ulong_max_clamp (value : Nat) : (if ULONG_MAX < value then ULONG_MAX else value) = min value ULONG_MAX := by
  split <;> omega

/-- The code's result, for any bytes that follow. -/
theorem converts_iff (ht : CString text) (hb : base ≤ 16) : Converts base text ↔
    (numeral (readBase base (text.dropWhile isBlank)).1 (readDigits base (text.dropWhile isBlank)) % 2 ^ 64,
      (text.takeWhile isBlank).length + (readBase base (text.dropWhile isBlank)).2 +
        (readDigits base (text.dropWhile isBlank)).length) = standardStrtoul base text := by
  refine ⟨fun ⟨result, endptr, hr, he⟩ => ?_, fun h => ⟨_, _, strtoul_eq ht hb, ?_⟩⟩
  · have hr := hr []
    rw [strtoul_eq ht hb, Option.some.injEq, Prod.mk.injEq] at hr
    rw [← he, ← hr.1, ← hr.2, BitVec.toNat_ofNat]
  · rw [← h, BitVec.toNat_ofNat]

/-- Without a numeral. -/
theorem converts_none (ht : CString text) (hb : base ≤ 16) (hn : NoNumeral base (text.dropWhile isSpace))
    (hread : readDigits base (text.dropWhile isBlank) = [] ∧ (readBase base (text.dropWhile isBlank)).2 = 0) :
    Converts base text ↔ Convertible base text := by
  have hstandard : standardStrtoul base text = (0, 0) := if_pos hn
  rw [converts_iff ht hb, Convertible, if_pos hn, hstandard, hread.1, hread.2, ← length_blanks_eq_zero, Prod.mk.injEq]
  exact and_iff_right (Nat.zero_mod _)

/-- A string whose white space is blanks. -/
theorem converts_blanks (ht : CString text) (hb : base ≤ 16) (hu : Unsigned text)
    (hs : ¬ (text.dropWhile isBlank).head?.any isSpace = true) : Converts base text ↔ Convertible base text := by
  obtain ⟨htake, hdrop⟩ := space_split text
  have htake' : (text.dropWhile isBlank).takeWhile isSpace = [] := by
    cases hrest : text.dropWhile isBlank with
    | nil => rfl
    | cons c rest => exact List.takeWhile_cons_of_neg (by rwa [hrest] at hs)
  have hdrop' : (text.dropWhile isBlank).dropWhile isSpace = text.dropWhile isBlank := by
    have := List.takeWhile_append_dropWhile (p := isSpace) (l := text.dropWhile isBlank)
    rwa [htake'] at this
  rw [htake', List.append_nil] at htake
  rw [hdrop'] at hdrop
  have hsign : (text.dropWhile isBlank).head?.any isSign = false := Bool.eq_false_iff.mpr hu
  have hminus : (text.dropWhile isBlank).head? ≠ some 0x2D := by
    intro h
    rw [h] at hsign
    cases hsign
  have hnone : NoNumeral base (text.dropWhile isSpace) ↔ (standardNumeral base (text.dropWhile isBlank)).2.2 = [] := by
    rw [hdrop, NoNumeral, hsign]
    rfl
  by_cases hn : NoNumeral base (text.dropWhile isSpace)
  · exact converts_none ht hb hn (readNumeral_none (hnone.mp hn))
  have hall : (text.takeWhile isBlank).all isBlank = true := List.all_takeWhile
  have hstandard : standardStrtoul base text = _ := if_neg hn
  rw [converts_iff ht hb, Convertible, if_neg hn, hstandard, htake, hdrop, hsign, if_neg hminus, and_iff_right hall,
    ← sameNumeral_iff, Prod.mk.injEq, SameNumeral, ulong_max_clamp]
  generalize text.dropWhile isBlank = s
  have hzero : s.drop false.toNat = s := rfl
  rw [hzero]
  refine and_congr_right' ?_
  show _ = (text.takeWhile isBlank).length + 0 + (standardNumeral base s).2.1 + (standardNumeral base s).2.2.length ↔
    (readBase base s).2 + (readDigits base s).length = _
  omega

/-- A string with other white space. -/
theorem converts_space (ht : CString text) (hb : base ≤ 16)
    (hs : (text.dropWhile isBlank).head?.any isSpace = true) : Converts base text ↔ Convertible base text := by
  obtain ⟨htake, hdrop⟩ := space_split text
  obtain ⟨c, rest, hrest, hspace⟩ : ∃ c rest, text.dropWhile isBlank = c :: rest ∧ isSpace c = true := by
    cases hrest : text.dropWhile isBlank with
    | nil => simp [hrest] at hs
    | cons c rest => exact ⟨c, rest, rfl, by simpa [hrest] using hs⟩
  have hblank : ¬ isBlank c = true := by
    have := List.head?_dropWhile_not isBlank text
    rw [hrest] at this
    simpa using this
  have hread := readNumeral_space base hspace hblank rest
  rw [← hrest] at hread
  by_cases hn : NoNumeral base (text.dropWhile isSpace)
  · exact converts_none ht hb hn hread
  have htake' : text.takeWhile isSpace = text.takeWhile isBlank ++ c :: rest.takeWhile isSpace := by
    rw [htake, hrest, List.takeWhile_cons_of_pos hspace]
  have hstandard : standardStrtoul base text = _ := if_neg hn
  rw [converts_iff ht hb, Convertible, if_neg hn, hstandard, htake', hread.1, hread.2]
  refine iff_of_false (fun h => ?_) fun h => hblank ?_
  · -- The standard's end lies behind the white space.
    have hend := (Prod.mk.inj h).2
    rw [List.length_append, List.length_cons] at hend
    simp only [List.length_nil] at hend
    omega
  · exact List.all_eq_true.mp h.1 c (List.mem_append_right _ List.mem_cons_self)

/-- Strings without a sign are converted as the standard has it if and only if they are `Convertible`. -/
theorem strtoul_converts_iff (ht : CString text) (hb : base ≤ 16) (hu : Unsigned text) :
    Converts base text ↔ Convertible base text := by
  by_cases hs : (text.dropWhile isBlank).head?.any isSpace = true
  · exact converts_space ht hb hs
  · exact converts_blanks ht hb hu hs

/-- The string " 0X1f". -/
theorem strtoul_converts_sample : Converts 0 [0x20, 0x30, 0x58, 0x31, 0x66] :=
  (strtoul_converts_iff (by decide) (by decide) (by decide)).mpr (by decide)

/-- The octal numeral "010" is read as a decimal one. -/
theorem strtoul_not_converts : ¬ Converts 0 [0x30, 0x31, 0x30] := by
  intro h
  have := (converts_iff (by decide) (by decide)).mp h
  revert this
  decide

end RvOs
