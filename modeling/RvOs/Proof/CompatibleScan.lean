import RvOs.Spec.CompatibleScan

/-!
# The scan of `compatible`

A comparison leaves the property where what is left of it is a part of the text
(`matchesIn_eq`). So the scan from a string on depends on this string and on
what it does from the next one on, and stops at the end of the property or past
it (`scanCompatibleIn_eq`). On stringlists it does what it is to
(`looksLikeUart_strings`).
-/

namespace RvOs

variable {value t w rest text : List Byte} {i : Nat}

/-! ## The strings -/

theorem cutShort_single (w : List Byte) : CutShort [w] ↔
    w ≠ [] ∧ (IsPart w (literal "ns16550") ∨ IsPart w (literal "uart")) := by
  simp [CutShort]

theorem cutShort_cons {ws : List (List Byte)} (h : ws ≠ []) (w : List Byte) :
    CutShort (w :: ws) ↔ ¬ startsSerial w = true ∧ CutShort ws := by
  rw [CutShort, CutShort, List.dropLast_cons_of_ne_nil h, List.forall_mem_cons, and_assoc,
    List.getLast?_cons_of_ne_nil h]

/-! ## What is read -/

theorem getElem?_of_drop {b : Byte} (h : value.drop i = b :: t) :
    value[i]? = some b ∧ i < value.length ∧ value.drop (i + 1) = t := by
  have hlt : i < value.length := by
    by_contra hge
    rw [List.drop_eq_nil_of_le (by omega)] at h
    cases h
  rw [List.drop_eq_getElem_cons hlt] at h
  obtain ⟨hb, ht⟩ := List.cons.inj h
  exact ⟨(List.getElem?_eq_getElem hlt).trans (congrArg some hb), hlt, ht⟩

theorem isPart_cons (b : Byte) : IsPart (b :: t) (b :: text) ↔ IsPart t text := by
  rw [IsPart, List.cons_prefix_cons, and_iff_right rfl, ne_eq, List.cons_inj_right, ← ne_eq, ← IsPart]

/-- A comparison leaves `value` if and only if what is left of it is a part of the text. -/
theorem matchesIn_eq (text : List Byte) (i : Nat) : matchesIn (fun i => value[i]?) i text =
    if IsPart (value.drop i) text then none else some (text.isPrefixOf (value.drop i)) := by
  induction text generalizing i with
  | nil =>
    have hpart : ¬ IsPart (value.drop i) [] := fun h => h.2 (List.prefix_nil.mp h.1)
    rw [if_neg hpart]
    rfl
  | cons c text ih =>
    rw [matchesIn]
    cases hd : value.drop i with
    | nil =>
      have hnone : value[i]? = none := List.getElem?_eq_none (List.drop_eq_nil_iff.mp hd)
      rw [if_pos ⟨List.nil_prefix, List.cons_ne_nil c text |>.symm⟩, hnone]
      rfl
    | cons b t =>
      obtain ⟨hb, -, hd⟩ := getElem?_of_drop hd
      rw [hb, Option.bind_eq_bind, Option.bind_some]
      by_cases hbc : b = c
      · subst hbc
        rw [if_pos rfl, ih, hd, List.isPrefixOf_cons_cons, BEq.rfl, Bool.true_and]
        simp only [isPart_cons]
      · have hpart : ¬ IsPart (b :: t) (c :: text) := fun h => hbc (List.cons_prefix_cons.mp h.1).1
        rw [if_neg hbc, if_neg hpart, List.isPrefixOf_cons_cons, beq_false_of_ne (Ne.symm hbc), Bool.false_and]

/-- The inner loop stays in `value`. -/
theorem skipStringIn_eq (hd : value.drop i = t) : ∃ j, skipStringIn (fun i => value[i]?) value.length i = some j ∧
    (j : Nat) = i + (t.takeWhile (· ≠ 0)).length := by
  induction t generalizing i with
  | nil =>
    have hge := List.drop_eq_nil_iff.mp hd
    refine ⟨⟨i, Nat.le_refl i⟩, ?_, rfl⟩
    rw [skipStringIn, if_neg (by omega)]
  | cons b t ih =>
    obtain ⟨hb, hlt, hd⟩ := getElem?_of_drop hd
    rw [skipStringIn, if_pos hlt, hb, Option.bind_eq_bind, Option.bind_some]
    by_cases hb0 : b = 0
    · refine ⟨⟨i, Nat.le_refl i⟩, if_neg (not_not.mpr hb0), ?_⟩
      rw [List.takeWhile_cons_of_neg (by simpa using hb0)]
      rfl
    · obtain ⟨j, hj, hje⟩ := ih hd
      refine ⟨⟨j, Nat.le_of_succ_le j.property⟩, ?_, ?_⟩
      · rw [if_pos hb0, hj]
        rfl
      · rw [List.takeWhile_cons_of_pos (by simpa using hb0), List.length_cons]
        show (j : Nat) = _
        omega

/-- One iteration of the scan. -/
theorem scanCompatibleIn_step (hd : value.drop i = t) (hlt : i < value.length) :
    scanCompatibleIn (fun i => value[i]?) value.length i =
      if IsPart t (literal "ns16550") ∨ IsPart t (literal "uart") then none
      else if startsSerial t then some true
      else scanCompatibleIn (fun i => value[i]?) value.length (i + (t.takeWhile (· ≠ 0)).length + 1) := by
  rw [scanCompatibleIn, if_pos hlt, matchesIn_eq, matchesIn_eq, hd]
  by_cases hns : IsPart t (literal "ns16550")
  · have hor : IsPart t (literal "ns16550") ∨ IsPart t (literal "uart") := .inl hns
    rw [if_pos hns, if_pos hor]
    rfl
  by_cases hu : IsPart t (literal "uart")
  · have hor : IsPart t (literal "ns16550") ∨ IsPart t (literal "uart") := .inr hu
    rw [if_neg hns, if_pos hu, if_pos hor]
    rfl
  obtain ⟨j, hj, hje⟩ := skipStringIn_eq hd
  rw [if_neg hns, if_neg hu, if_neg (not_or.mpr ⟨hns, hu⟩), hj, ← hje]
  rfl

/-! ## Strings without a NUL -/

theorem isPrefixOf_string (ht : 0 ∉ text) (w rest : List Byte) :
    text.isPrefixOf (w ++ 0 :: rest) = text.isPrefixOf w := by
  induction text generalizing w with
  | nil => rfl
  | cons c text ih =>
    rw [List.mem_cons, not_or] at ht
    cases w with
    | nil =>
      rw [List.nil_append, List.isPrefixOf_cons_cons, beq_false_of_ne (Ne.symm ht.1), Bool.false_and]
      rfl
    | cons b w => rw [List.cons_append, List.isPrefixOf_cons_cons, ih ht.2, List.isPrefixOf_cons_cons]

theorem startsSerial_string (w rest : List Byte) : startsSerial (w ++ 0 :: rest) = startsSerial w := by
  rw [startsSerial, isPrefixOf_string (by decide), isPrefixOf_string (by decide), startsSerial]

theorem not_isPart_string (ht : 0 ∉ text) : ¬ IsPart (w ++ 0 :: rest) text := fun h =>
  ht (h.1.subset (List.mem_append_right w List.mem_cons_self))

theorem takeWhile_string (hw : 0 ∉ w) (rest : List Byte) :
    (w ++ rest).takeWhile (· ≠ 0) = w ++ rest.takeWhile (· ≠ 0) :=
  List.takeWhile_append_of_pos fun _ hb => decide_eq_true (ne_of_mem_of_not_mem hb hw)

/-- At the end of the property the scan stops. -/
theorem scanCompatibleIn_end (h : value.length ≤ i) :
    scanCompatibleIn (fun i => value[i]?) value.length i = some false := by
  rw [scanCompatibleIn, if_neg (by omega)]

/-- A string that ends with a NUL, -/
theorem scanCompatibleIn_string (hd : value.drop i = w ++ 0 :: rest) (hw : 0 ∉ w) :
    scanCompatibleIn (fun i => value[i]?) value.length i = if startsSerial w then some true
      else scanCompatibleIn (fun i => value[i]?) value.length (i + w.length + 1) := by
  have hlen := congrArg List.length hd
  rw [List.length_drop, List.length_append, List.length_cons] at hlen
  have htake : (w ++ 0 :: rest).takeWhile (· ≠ 0) = w := by
    rw [takeWhile_string hw, List.takeWhile_cons_of_neg (by decide), List.append_nil]
  have hparts : ¬ (IsPart (w ++ 0 :: rest) (literal "ns16550") ∨ IsPart (w ++ 0 :: rest) (literal "uart")) :=
    not_or.mpr ⟨not_isPart_string (by decide), not_isPart_string (by decide)⟩
  rw [scanCompatibleIn_step hd (by omega), if_neg hparts, startsSerial_string, htake]

/-- and one that ends with the property. -/
theorem scanCompatibleIn_last (hd : value.drop i = w) (hw : 0 ∉ w) :
    scanCompatibleIn (fun i => value[i]?) value.length i = if CutShort [w] then none else some (startsSerial w) := by
  have hlen := congrArg List.length hd
  rw [List.length_drop] at hlen
  by_cases hnil : w = []
  · subst hnil
    rw [scanCompatibleIn_end (List.drop_eq_nil_iff.mp hd), if_neg fun h => ((cutShort_single _).mp h).1 rfl]
    decide
  have hpos := List.length_pos_of_ne_nil hnil
  have htake : w.takeWhile (· ≠ 0) = w := by
    have := takeWhile_string hw []
    rwa [List.append_nil, List.takeWhile_nil, List.append_nil] at this
  rw [scanCompatibleIn_step hd (by omega), htake, scanCompatibleIn_end (by omega)]
  simp only [cutShort_single, ne_eq, hnil, not_false_eq_true, true_and]
  cases startsSerial w <;> rfl

/-- The scan stops in the property, or is cut short. -/
theorem scanCompatibleIn_eq (n : Nat) : ∀ i, (value.drop i).length ≤ n →
    scanCompatibleIn (fun i => value[i]?) value.length i =
      if CutShort ((value.drop i).splitOn 0) then none else some (((value.drop i).splitOn 0).any startsSerial) := by
  induction n with
  | zero =>
    intro i hn
    have hnil := List.eq_nil_of_length_eq_zero (Nat.le_zero.mp hn)
    rw [scanCompatibleIn_last hnil (by simp), hnil]
    decide
  | succ n ih =>
    intro i hn
    by_cases hmem : 0 ∈ value.drop i
    swap
    · rw [scanCompatibleIn_last rfl hmem, List.splitOn_eq_singleton hmem, List.any_cons, List.any_nil, Bool.or_false]
    obtain ⟨w, rest, hd, hw⟩ := List.eq_append_cons_of_mem hmem
    have hrest : value.drop (i + w.length + 1) = rest := by
      rw [Nat.add_assoc, ← List.drop_drop, hd, List.append_cons]
      simp
    have hlen : rest.length ≤ n := by
      rw [hd, List.length_append, List.length_cons] at hn
      omega
    rw [scanCompatibleIn_string hd hw, ih _ (by rw [hrest]; exact hlen), hrest, hd,
      List.splitOn_append_cons_self_of_not_mem hw, List.any_cons]
    simp only [cutShort_cons (List.splitOn_ne_nil 0 rest)]
    cases startsSerial w <;> simp

/-! ## The bytes of the blob -/

section Byte

variable {load : Nat → Option Byte} {byte : Nat → Byte} {compatLen fuel : Nat}
    (h : ∀ {i b}, load i = some b → byte i = b)

include h

/-- Where all loads are of the array, comparing its bytes has the same result, -/
theorem matchesAt_of_in (text : List Byte) : ∀ {i r}, matchesIn load i text = some r → matchesAt byte i text = r := by
  induction text with
  | nil =>
    intro i r hm
    exact Option.some.inj hm
  | cons c text ih =>
    intro i r hm
    rw [matchesIn, Option.bind_eq_bind, Option.bind_eq_some_iff] at hm
    obtain ⟨b, hb, hm⟩ := hm
    rw [matchesAt, h hb]
    by_cases hbc : b = c
    · rw [if_pos hbc] at hm
      rw [ih hm, hbc, BEq.rfl, Bool.true_and]
    · rw [if_neg hbc] at hm
      rw [beq_false_of_ne hbc, Bool.false_and]
      exact Option.some.inj hm

theorem skipString_of_in : ∀ {i j}, compatLen - i ≤ fuel → skipStringIn load compatLen i = some j →
    skipString byte compatLen fuel i = j := by
  induction fuel with
  | zero =>
    intro i j hf hs
    rw [skipStringIn, if_neg (by omega)] at hs
    rw [← Option.some.inj hs]
    rfl
  | succ fuel ih =>
    intro i j hf hs
    rw [skipStringIn] at hs
    by_cases hi : i < compatLen
    swap
    · rw [if_neg hi] at hs
      rw [skipString, if_neg fun hb => hi hb.1, ← Option.some.inj hs]
    rw [if_pos hi, Option.bind_eq_bind, Option.bind_eq_some_iff] at hs
    obtain ⟨b, hb, hs⟩ := hs
    rw [skipString, h hb]
    by_cases hb0 : b = 0
    · rw [if_neg (not_not.mpr hb0)] at hs
      rw [if_neg fun hb => hb.2 hb0, ← Option.some.inj hs]
    · rw [if_pos hb0, Option.bind_eq_bind, Option.bind_eq_some_iff] at hs
      obtain ⟨k, hk, hs⟩ := hs
      rw [if_pos ⟨hi, hb0⟩, ih (by omega) hk, ← Option.some.inj hs]

theorem scanCompatible_of_in : ∀ {i r}, compatLen - i ≤ fuel → scanCompatibleIn load compatLen i = some r →
    scanCompatible byte compatLen fuel i = r := by
  induction fuel with
  | zero =>
    intro i r hf hs
    rw [scanCompatibleIn, if_neg (by omega)] at hs
    exact Option.some.inj hs
  | succ fuel ih =>
    intro i r hf hs
    rw [scanCompatibleIn] at hs
    by_cases hi : i < compatLen
    swap
    · rw [if_neg hi] at hs
      rw [scanCompatible, if_neg hi]
      exact Option.some.inj hs
    rw [if_pos hi] at hs
    simp only [Option.bind_eq_bind, Option.bind_eq_some_iff] at hs
    obtain ⟨ns, hns, u, hu, hs⟩ := hs
    rw [scanCompatible, if_pos hi, matchedNs16550, matchedUart, matchesAt_of_in h _ hns, matchesAt_of_in h _ hu]
    by_cases hm : (ns || u) = true
    · rw [if_pos hm] at hs ⊢
      exact Option.some.inj hs
    · rw [if_neg hm] at hs ⊢
      obtain ⟨j, hj, hs⟩ := Option.bind_eq_some_iff.mp hs
      have hle := j.property
      rw [skipString_of_in h (by omega) hj]
      exact ih (by omega) hs

end Byte

/-! ## Properties -/

variable {p : FdtProperty}

theorem byte_of_getElem? {b : Byte} (h : p.value[i]? = some b) : p.byte i = b := by
  obtain ⟨hlt, hb⟩ := List.getElem?_eq_some_iff.mp h
  rw [FdtProperty.byte, dif_pos hlt]
  exact hb

/-- The scan of a property that is not cut short. -/
theorem looksLikeUart_eq (h : ¬ CutShort (p.value.splitOn 0)) :
    scanCompatibleIn (fun i => p.value[i]?) p.value.length 0 = some ((p.value.splitOn 0).any startsSerial) ∧
      looksLikeUart p.byte p.value.length = (p.value.splitOn 0).any startsSerial := by
  have hscan : scanCompatibleIn (fun i => p.value[i]?) p.value.length 0 = _ := scanCompatibleIn_eq _ 0 (Nat.le_refl _)
  rw [List.drop_zero, if_neg h] at hscan
  exact ⟨hscan, scanCompatible_of_in byte_of_getElem? (Nat.sub_le ..) hscan⟩

/-- The scan stays in a property, and finds its strings, if and only if this is not cut short. -/
theorem scanSound_iff (value : List Byte) : ScanSound value ↔ ¬ CutShort (value.splitOn 0) := by
  refine ⟨fun ⟨r, hr, _⟩ hc => ?_, fun hc => ?_⟩
  · have hscan : scanCompatibleIn (fun i => value[i]?) value.length 0 = _ := scanCompatibleIn_eq _ 0 (Nat.le_refl _)
    rw [List.drop_zero, if_pos hc, hr] at hscan
    cases hscan
  · have heq (after : Nat → Byte) := looksLikeUart_eq (p := ⟨"compatible", value, after⟩) hc
    exact ⟨_, (heq fun _ => 0).1, List.any_eq_true, fun after => (heq after).2⟩

/-- The property "uar" without a NUL: the scan finds a string if the byte after it is a t. -/
theorem uar_not_scanSound : ¬ ScanSound (literal "uar") ∧
    looksLikeUart (FdtProperty.byte ⟨"compatible", literal "uar", fun _ => 0x74⟩) 3 = true := by
  have hcut : CutShort [literal "uar"] := by decide
  refine ⟨fun ⟨r, hr, _⟩ => ?_, by decide⟩
  rw [scanCompatibleIn_last (w := literal "uar") rfl (by decide), if_pos hcut] at hr
  cases hr

/-! ## Stringlists -/

/-- Every string is followed by a NUL. -/
def Terminated (s : List Byte) : Prop := s = [] ∨ s.getLast? = some 0

theorem Terminated.not_cutShort (h : Terminated value) : ¬ CutShort (value.splitOn 0) := by
  have hlast : (value.splitOn 0).getLast? = some [] := by
    rcases h with rfl | h
    · rfl
    · obtain ⟨s, rfl⟩ := List.getLast?_eq_some_iff.mp h
      rw [List.splitOn_append_cons_self, List.splitOn_nil, List.getLast?_append_cons]
      rfl
  rintro ⟨-, w, hw, hne, -⟩
  rw [hlast] at hw
  exact hne (Option.some.inj hw).symm

/-- The scan of a stringlist. -/
theorem looksLikeUart_strings (h : Terminated p.value) :
    looksLikeUart p.byte p.value.length = p.strings.any startsSerial :=
  (looksLikeUart_eq h.not_cutShort).2

end RvOs
