import Mathlib.Tactic.Common
import RvOs.Spec.Memory

/-!
# Searching strings

The loops of `strchr` and `strrchr` compare with the character that `c`
converts to, but take the NUL only for the `int` 0. So both find what they are
to exactly unless `c` is another `int` that converts to NUL
(`strchr_searches_iff`), of which they find none.
-/

namespace RvOs

variable {text pre rest : List Byte} {c : BitVec 32} {i j : Nat} {after : List Byte}

theorem cString_cons {b : Byte} : CString (b :: text) ↔ b ≠ 0 ∧ CString text := by
  rw [CString, List.mem_cons, not_or]
  exact and_congr_left' ne_comm

/-! ## The loops -/

/-- A string without the character. -/
theorem strchrLoop_none (ht : CString text) (hc : c.setWidth 8 ∉ text) (i : Nat) :
    strchrLoop c i (text ++ 0 :: after) = some (if c = 0 then some (i + text.length) else none) := by
  induction text generalizing i with
  | nil => simp [strchrLoop]
  | cons b text ih =>
    rw [cString_cons] at ht
    rw [List.mem_cons, not_or] at hc
    rw [List.cons_append, strchrLoop, if_pos ht.1, if_neg (Ne.symm hc.1), ih ht.2 hc.2, List.length_cons,
      Nat.add_right_comm, Nat.add_assoc]

/-- Up to the first occurrence. -/
theorem strchrLoop_first (ht : CString pre) (hc : c.setWidth 8 ∉ pre) (h0 : c.setWidth 8 ≠ 0) (i : Nat) :
    strchrLoop c i (pre ++ c.setWidth 8 :: rest) = some (some (i + pre.length)) := by
  induction pre generalizing i with
  | nil =>
    rw [List.nil_append, strchrLoop, if_pos h0, if_pos rfl]
    rfl
  | cons b pre ih =>
    rw [cString_cons] at ht
    rw [List.mem_cons, not_or] at hc
    rw [List.cons_append, strchrLoop, if_pos ht.1, if_neg (Ne.symm hc.1), ih ht.2 hc.2, List.length_cons,
      Nat.add_right_comm, Nat.add_assoc]

theorem strrchrLoop_none (ht : CString text) (hc : c.setWidth 8 ∉ text) (last : Option Nat) (i : Nat) :
    strrchrLoop c last i (text ++ 0 :: after) = some (if c = 0 then some (i + text.length) else last) := by
  induction text generalizing i with
  | nil => simp [strrchrLoop, apply_ite some]
  | cons b text ih =>
    rw [cString_cons] at ht
    rw [List.mem_cons, not_or] at hc
    rw [List.cons_append, strrchrLoop, if_pos ht.1, if_neg (Ne.symm hc.1), ih ht.2 hc.2, List.length_cons,
      Nat.add_right_comm, Nat.add_assoc]

/-- The start of a string changes `last` only. -/
theorem strrchrLoop_append (ht : CString pre) (rest : List Byte) (last : Option Nat) (i : Nat) :
    ∃ last', strrchrLoop c last i (pre ++ rest) = strrchrLoop c last' (i + pre.length) rest := by
  induction pre generalizing last i with
  | nil => exact ⟨last, rfl⟩
  | cons b pre ih =>
    rw [cString_cons] at ht
    obtain ⟨last', h⟩ := ih ht.2 (if b = c.setWidth 8 then some i else last) (i + 1)
    refine ⟨last', ?_⟩
    rw [List.cons_append, strrchrLoop, if_pos ht.1, h, List.length_cons, Nat.add_right_comm, Nat.add_assoc]

/-- From the last occurrence on. -/
theorem strrchrLoop_last (ht : CString pre) (hr : CString rest) (hc : c.setWidth 8 ∉ rest) (h0 : c.setWidth 8 ≠ 0) :
    strrchr c (pre ++ c.setWidth 8 :: rest ++ 0 :: after) = some (some pre.length) := by
  have hcz : c ≠ 0 := fun h => h0 (by rw [h]; rfl)
  obtain ⟨last, h⟩ := strrchrLoop_append (c := c) ht (c.setWidth 8 :: (rest ++ 0 :: after)) none 0
  rw [strrchr, List.append_assoc, List.cons_append, h, strrchrLoop, if_pos h0, if_pos rfl, strrchrLoop_none hr hc,
    if_neg hcz, Nat.zero_add]

/-! ## Positions -/

theorem hasChar_mem (h0 : c.setWidth 8 ≠ 0) (h : HasChar text c i) : c.setWidth 8 ∈ text := by
  have hm := List.mem_of_getElem? h
  rw [List.mem_append, List.mem_singleton] at hm
  exact hm.resolve_right h0

/-- The only NUL is the terminator. -/
theorem hasChar_nul (ht : CString text) (h0 : c.setWidth 8 = 0) : HasChar text c i ↔ i = text.length := by
  rw [HasChar, h0]
  constructor
  · intro h
    rcases Nat.lt_trichotomy i text.length with hi | hi | hi
    · rw [List.getElem?_append_left hi] at h
      exact absurd (List.mem_of_getElem? h) ht
    · exact hi
    · rw [List.getElem?_eq_none (by rw [List.length_append, List.length_singleton]; omega)] at h
      cases h
  · rintro rfl
    rw [List.getElem?_concat_length]

theorem hasChar_split : HasChar (pre ++ c.setWidth 8 :: rest) c pre.length := by
  rw [HasChar, List.append_assoc, List.getElem?_append_right (Nat.le_refl _), Nat.sub_self]
  rfl

theorem isFirst_split (hc : c.setWidth 8 ∉ pre) : IsFirst (pre ++ c.setWidth 8 :: rest) c (some pre.length) := by
  refine ⟨hasChar_split, fun j hj => ?_⟩
  by_contra hlt
  rw [HasChar, List.append_assoc, List.getElem?_append_left (by omega)] at hj
  exact hc (List.mem_of_getElem? hj)

theorem isLast_split (hc : c.setWidth 8 ∉ rest) (h0 : c.setWidth 8 ≠ 0) :
    IsLast (pre ++ c.setWidth 8 :: rest) c (some pre.length) := by
  refine ⟨hasChar_split, fun j hj => ?_⟩
  by_contra hlt
  obtain ⟨k, rfl⟩ := Nat.exists_eq_add_of_le (show pre.length + 1 ≤ j by omega)
  rw [HasChar, List.append_assoc, List.getElem?_append_right (by omega),
    show pre.length + 1 + k - pre.length = k + 1 by omega, List.cons_append, List.getElem?_cons_succ] at hj
  exact hc (hasChar_mem h0 hj)

/-! ## The searches -/

/-- A character of the string, or one that is not in it. -/
theorem searches_char (ht : CString text) (h0 : c.setWidth 8 ≠ 0) : Searches text c := by
  by_cases hm : c.setWidth 8 ∈ text
  · obtain ⟨pre, rest, rfl, hpre⟩ := List.eq_append_cons_of_mem hm
    obtain ⟨post, init, hrev, hpost⟩ := List.eq_append_cons_of_mem (List.mem_reverse.mpr hm)
    have hlast : pre ++ c.setWidth 8 :: rest = init.reverse ++ c.setWidth 8 :: post.reverse := by
      rw [← List.reverse_reverse (pre ++ c.setWidth 8 :: rest), hrev, List.reverse_append, List.reverse_cons,
        List.append_assoc]
      rfl
    have hinit : CString pre ∧ CString init.reverse ∧ CString post.reverse := by
      have ht' : CString (init.reverse ++ c.setWidth 8 :: post.reverse) := hlast ▸ ht
      simp only [CString, List.mem_append, List.mem_cons, not_or] at ht ht' ⊢
      exact ⟨ht.1, ht'.1, ht'.2.2⟩
    rw [← List.mem_reverse] at hpost
    refine ⟨some pre.length, some init.reverse.length, isFirst_split hpre, ?_, fun after => ⟨?_, ?_⟩⟩
    · rw [hlast]
      exact isLast_split hpost h0
    · rw [strchr, List.append_assoc, List.cons_append, strchrLoop_first hinit.1 hpre h0, Nat.zero_add]
    · rw [hlast]
      exact strrchrLoop_last hinit.2.1 hinit.2.2 hpost h0
  · have hcz : c ≠ 0 := fun h => h0 (by rw [h]; rfl)
    refine ⟨none, none, fun j hj => hm (hasChar_mem h0 hj), fun j hj => hm (hasChar_mem h0 hj), fun after => ⟨?_, ?_⟩⟩
    · rw [strchr, strchrLoop_none ht hm, if_neg hcz]
    · rw [strrchr, strrchrLoop_none ht hm, if_neg hcz]

/-- For a `c` that converts to NUL both functions look at `c` itself. -/
theorem strchr_nul (ht : CString text) (h0 : c.setWidth 8 = 0) (after : List Byte) :
    strchr c (text ++ 0 :: after) = some (if c = 0 then some text.length else none) ∧
      strrchr c (text ++ 0 :: after) = some (if c = 0 then some text.length else none) := by
  have hm : c.setWidth 8 ∉ text := h0 ▸ ht
  rw [strchr, strrchr, strchrLoop_none ht hm, strrchrLoop_none ht hm, Nat.zero_add]
  exact ⟨rfl, rfl⟩

/-- The searches are right exactly when `c` is 0 or converts to another character than NUL. -/
theorem strchr_searches_iff (ht : CString text) : Searches text c ↔ c = 0 ∨ c.setWidth 8 ≠ 0 := by
  by_cases h0 : c.setWidth 8 = 0
  swap
  · exact iff_of_true (searches_char ht h0) (.inr h0)
  have hnul := fun j => hasChar_nul (i := j) ht h0
  refine ⟨fun ⟨first, last, hf, hl, hs⟩ => .inl ?_, fun h => ?_⟩
  · by_contra hc
    have hr := (hs []).1
    rw [(strchr_nul ht h0 []).1, if_neg hc] at hr
    obtain rfl := Option.some.inj hr
    exact hf text.length ((hnul _).mpr rfl)
  · have hc : c = 0 := h.resolve_right (not_not.mpr h0)
    refine ⟨some text.length, some text.length, ⟨(hnul _).mpr rfl, fun j hj => ((hnul j).mp hj).ge⟩,
      ⟨(hnul _).mpr rfl, fun j hj => ((hnul j).mp hj).le⟩, fun after => ?_⟩
    rw [(strchr_nul ht h0 after).1, (strchr_nul ht h0 after).2, if_pos hc]
    exact ⟨rfl, rfl⟩

/-- A character that is there twice. -/
theorem strchr_searches_sample : Searches [0x6D, 0x65, 0x6D, 0x6F] 0x6D :=
  (strchr_searches_iff (by decide)).mpr (.inr (by decide))

/-- An `int` that converts to NUL is not found in any string. -/
theorem strchr_not_searches : ¬ Searches [0x41] 256 := by
  rintro ⟨first, last, hf, -, hs⟩
  obtain rfl : none = first := Option.some.inj (hs []).1
  exact hf 1 rfl

/-- Right searches find the same characters, and the first position is not past the last. -/
theorem Searches.order (h : Searches text c) : ∃ first last,
    (∀ after, strchr c (text ++ 0 :: after) = some first ∧ strrchr c (text ++ 0 :: after) = some last) ∧
      first.isSome = last.isSome ∧ ∀ i ∈ first, ∀ j ∈ last, i ≤ j := by
  obtain ⟨first, last, hf, hl, hs⟩ := h
  refine ⟨first, last, hs, ?_, ?_⟩
  · cases first with
    | none =>
      cases last with
      | none => rfl
      | some j => exact (hf j hl.1).elim
    | some i =>
      cases last with
      | none => exact (hl i hf.1).elim
      | some j => rfl
  · rintro i rfl j rfl
    exact hf.2 j hl.1

end RvOs
