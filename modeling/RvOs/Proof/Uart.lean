import RvOs.Framework.Bits
import RvOs.Framework.Exec
import RvOs.Spec.Strtoul

/-!
# What the console sends

`uart_puts` sends the characters of its string (`uartPuts_eq`), `print_hex` 0x
and the last 16 digits of the value (`printHex_eq`).
-/

namespace RvOs

open Exec

/-- `uart_puts` sends the bytes before the first 0. -/
theorem uartPuts_eq (l : List Byte) (s : Hart) :
    uartPuts l s = .ok () { s with tx := s.tx ++ l.takeWhile (· ≠ 0) } := by
  induction l generalizing s with
  | nil =>
    rw [List.takeWhile_nil, List.append_nil]
    rfl
  | cons c l ih =>
    rw [uartPuts]
    by_cases hc : c = 0
    · rw [if_pos hc, List.takeWhile_cons_of_neg (by simpa using hc), List.append_nil]
      rfl
    · have hput : uartPutc c s = .ok () { s with tx := s.tx ++ [c] } := rfl
      rw [if_neg hc, bind_ok hput, ih, List.takeWhile_cons_of_pos (by simpa using hc), List.append_assoc]
      rfl

theorem panic_ok {α : Type} (functionName msg : String) (s : Hart) :
    ∃ s', (panic functionName msg : Exec α) s = .error .panicked s' := by
  rw [panic, bind_ok (uartPuts_eq _ _), bind_ok (uartPuts_eq _ _), bind_ok (uartPuts_eq _ _),
    bind_ok (uartPuts_eq _ _), bind_ok (uartPuts_eq _ _)]
  exact ⟨_, rfl⟩

/-- The loop sends the last `n` digits. -/
theorem printDigits_eq (value : U64) (n : Nat) (s : Hart) :
    printDigits value n s = .ok () { s with tx := s.tx ++ (lastDigits 16 value.toNat n).map hexDigit } := by
  induction n generalizing s with
  | zero =>
    rw [lastDigits, List.map_nil, List.append_nil]
    rfl
  | succ n ih =>
    have hdigit : ((value >>> (4 * n)) &&& 0xF).toNat = value.toNat / 16 ^ n % 16 := by
      have hpow : 16 ^ n = 2 ^ (4 * n) := by rw [Nat.pow_mul]
      rw [hpow]
      exact Bits.toNat_field (k := 4) _ rfl
    have hput : uartPutc ((literal "0123456789ABCDEF").getD ((value >>> (4 * n)) &&& 0xF).toNat 0) s =
        .ok () { s with tx := s.tx ++ [hexDigit (value.toNat / 16 ^ n % 16)] } := by
      rw [hdigit]
      rfl
    rw [printDigits, bind_ok hput, ih, lastDigits, List.map_cons, List.append_assoc]
    rfl

theorem printHex_eq (value : U64) (s : Hart) : printHex value s = .ok () { s with tx := s.tx ++ hexText value } := by
  rw [printHex, bind_ok (uartPuts_eq _ _), printDigits_eq, hexText, ← List.append_assoc]
  rfl

end RvOs
