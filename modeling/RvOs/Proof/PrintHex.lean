import RvOs.Proof.Strtoul
import RvOs.Proof.Uart

/-!
# `print_hex` and `strtoul`

The digits that `print_hex` sends are read back one by one (`digits_hexDigit`),
so `strtoul` returns the value (`strtoul_hexText`).
-/

namespace RvOs

variable {d : Nat}

theorem digitValue_hexDigit (hd : d < 16) : digitValue (hexDigit d) = some d := by
  revert d
  decide

theorem digits_hexDigit {ds : List Nat} (h : ∀ d ∈ ds, d < 16) : digits 16 (ds.map hexDigit) = ds := by
  induction ds with
  | nil => rfl
  | cons d ds ih =>
    obtain ⟨hd, hds⟩ := List.forall_mem_cons.mp h
    rw [List.map_cons, digits_of_some (digitValue_hexDigit hd), if_pos hd, ih hds]

theorem hexDigit_ne_zero (hd : d < 16) : hexDigit d ≠ 0 := by
  revert d
  decide

theorem cString_hexText (value : U64) : CString (hexText value) := by
  rw [hexText, CString, List.mem_append, not_or]
  refine ⟨by decide, fun h => ?_⟩
  obtain ⟨d, hd, h0⟩ := List.mem_map.mp h
  exact hexDigit_ne_zero (lastDigits_lt (by decide) _ _ d hd) h0

theorem strtoul_hexText (value : U64) (after : List Byte) :
    strtoul (hexText value ++ 0 :: after) 0 = some (value, 18) := by
  have htake : (hexText value).takeWhile isBlank = [] := rfl
  have hdrop : (hexText value).dropWhile isBlank = hexText value := rfl
  have hbase : readBase 0 (hexText value) = (16, 2) := rfl
  have hdigits : readDigits 0 (hexText value) = lastDigits 16 value.toNat 16 :=
    digits_hexDigit (lastDigits_lt (by decide) _ _)
  have hvalue : BitVec.ofNat 64 (numeral 16 (lastDigits 16 value.toNat 16)) = value := by
    rw [numeral_lastDigits, Nat.mod_eq_of_lt (by exact value.isLt), BitVec.ofNat_toNat, BitVec.setWidth_eq]
  have heq : strtoul (hexText value ++ 0 :: after) (0 : Nat) = _ := strtoul_eq (cString_hexText value) (by decide) after
  rw [htake, hdrop, hbase, hdigits, hvalue, length_lastDigits] at heq
  exact heq

/-- The characters sent are 0x and 16 digits, and `strtoul` returns the value that they were sent for. -/
theorem printHex_strtoul : (∀ (value : U64) (s : Hart), ∃ text,
      printHex value s = .ok () { s with tx := s.tx ++ literal "0x" ++ text } ∧
        text.length = 16 ∧ (∀ c ∈ text, ∃ d < 16, digitValue c = some d) ∧
        ∀ after, strtoul (literal "0x" ++ text ++ 0 :: after) 0 = some (value, (literal "0x" ++ text).length)) ∧
    ∀ s, Function.Injective fun value => printHex value s := by
  refine ⟨fun value s => ⟨(lastDigits 16 value.toNat 16).map hexDigit, ?_, ?_, ?_, ?_⟩, ?_⟩
  · rw [printHex_eq, hexText, List.append_assoc]
  · rw [List.length_map, length_lastDigits]
  · intro c hc
    obtain ⟨d, hd, rfl⟩ := List.mem_map.mp hc
    have hd := lastDigits_lt (by decide) _ _ d hd
    exact ⟨d, hd, digitValue_hexDigit hd⟩
  · intro after
    have hlength : (literal "0x" ++ (lastDigits 16 value.toNat 16).map hexDigit).length = 18 := by
      rw [List.length_append, List.length_map, length_lastDigits]
      rfl
    rw [hlength]
    exact strtoul_hexText value after
  · intro s value value' h
    simp only [printHex_eq] at h
    have htext : hexText value = hexText value' := by
      injection h with _ hs
      injection hs with _ _ _ htx
      exact List.append_cancel_left htx
    have hread := strtoul_hexText value []
    rw [htext, strtoul_hexText] at hread
    exact (Prod.mk.inj (Option.some.inj hread)).1.symm

end RvOs
