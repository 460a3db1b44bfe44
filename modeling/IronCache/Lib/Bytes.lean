import Mathlib.Data.Nat.Digits.Lemmas

/-!
# Byte strings

The lexicographic order of byte strings, and decimal numerals as byte strings.
-/

namespace IronCache

abbrev Bytes := List UInt8

instance byteOrder : LinearOrder UInt8 where
  le_refl := UInt8.le_refl
  le_trans _ _ _ := UInt8.le_trans
  le_antisymm _ _ := UInt8.le_antisymm
  le_total := UInt8.le_total
  lt_iff_le_not_ge _ _ := by simp only [UInt8.lt_iff_toNat_lt, UInt8.le_iff_toNat_le]; omega
  toDecidableLE := inferInstance

instance wordOrder : LinearOrder UInt64 where
  le_refl := UInt64.le_refl
  le_trans _ _ _ := UInt64.le_trans
  le_antisymm _ _ := UInt64.le_antisymm
  le_total := UInt64.le_total
  lt_iff_le_not_ge _ _ := by simp only [UInt64.lt_iff_toNat_lt, UInt64.le_iff_toNat_le]; omega
  toDecidableLE := inferInstance

namespace Decimal

def isDigit (byte : UInt8) : Bool := 48 ≤ byte && byte ≤ 57

def ofDigit (digit : ℕ) : UInt8 := UInt8.ofNat (48 + digit)

def toDigit (byte : UInt8) : ℕ := byte.toNat - 48

def print (number : ℕ) : Bytes :=
  if number = 0 then [48] else ((Nat.digits 10 number).map ofDigit).reverse

/-- Reads digits onto an accumulator, or fails at a byte that is no digit and at the bound. -/
def parseFrom (bound : ℕ) : ℕ → Bytes → Option ℕ
  | total, [] => some total
  | total, byte :: rest =>
    if isDigit byte && decide (total * 10 + toDigit byte < bound) then
      parseFrom bound (total * 10 + toDigit byte) rest
    else none

variable {digit bound number : ℕ} {byte : UInt8}

theorem isDigit_ofDigit (small : digit < 10) : isDigit (ofDigit digit) = true := by
  interval_cases digit <;> decide

theorem toDigit_ofDigit (small : digit < 10) : toDigit (ofDigit digit) = digit := by
  interval_cases digit <;> decide

theorem isDigit_of_parseFrom (parsed : parseFrom bound total bytes = some number)
    (member : byte ∈ bytes) : isDigit byte = true := by
  induction bytes generalizing total with
  | nil => cases member
  | cons first rest ih =>
    simp only [parseFrom] at parsed
    split_ifs at parsed with digit
    simp only [Bool.and_eq_true] at digit
    rcases List.mem_cons.mp member with rfl | later
    · exact digit.1
    · exact ih parsed later

theorem parseFrom_append (bound total : ℕ) : parseFrom bound total (front ++ back) =
      (parseFrom bound total front).bind fun read => parseFrom bound read back := by
  induction front generalizing total with
  | nil => rfl
  | cons byte front ih =>
    simp only [List.cons_append, parseFrom]
    split_ifs
    · exact ih _
    · rfl

theorem parseFrom_reverse (small : ∀ digit ∈ digits, digit < 10) (fits : Nat.ofDigits 10 digits < bound) :
    parseFrom bound 0 (digits.map ofDigit).reverse = some (Nat.ofDigits 10 digits) := by
  induction digits with
  | nil => rfl
  | cons digit digits ih =>
    have digitSmall : digit < 10 := small digit (by simp)
    rw [Nat.ofDigits_cons] at fits ⊢
    have front := ih (fun other member => small other (by simp [member])) (by omega)
    rw [List.map_cons, List.reverse_cons, parseFrom_append, front]
    simp only [Option.bind_some, parseFrom, isDigit_ofDigit digitSmall,
      toDigit_ofDigit digitSmall, Bool.true_and, decide_eq_true_eq]
    rw [if_pos (by omega)]
    congr 1
    omega

theorem parseFrom_print (fits : number < bound) : parseFrom bound 0 (print number) = some number := by
  by_cases zero : number = 0
  · subst zero
    simp [print, parseFrom, isDigit, toDigit, fits]
  rw [print, if_neg zero]
  have digits := Nat.ofDigits_digits 10 number
  have read := @parseFrom_reverse bound (Nat.digits 10 number)
    (fun digit member => Nat.digits_lt_base (by decide) member) (by rwa [digits])
  rwa [digits] at read

theorem print_ne_nil (number : ℕ) : print number ≠ [] := by
  unfold print
  split_ifs with zero
  · simp
  · simpa using Nat.digits_ne_nil_iff_ne_zero.mpr zero

def parse (bytes : Bytes) : Option ℕ :=
  if bytes = [] then none else parseFrom (10 ^ bytes.length) 0 bytes

theorem lt_pow_length_print : number < 10 ^ (print number).length := by
  unfold print
  split_ifs with zero
  · simp [zero]
  · simpa using Nat.lt_base_pow_length_digits (m := number) (show 1 < 10 by decide)

theorem parse_print (number : ℕ) : parse (print number) = some number := by
  rw [parse, if_neg (print_ne_nil number), parseFrom_print lt_pow_length_print]

theorem isDigit_of_mem_print (member : byte ∈ print number) : isDigit byte = true :=
  isDigit_of_parseFrom (parseFrom_print lt_pow_length_print) member

/-- The first byte of a printed number is a digit, and `0` only for the number zero. -/
theorem head_print (number : ℕ) :
    ∃ digit < 10, ∃ rest, print number = ofDigit digit :: rest ∧ (digit = 0 ↔ number = 0) ∧
      (number = 0 → rest = []) := by
  by_cases zero : number = 0
  · exact ⟨0, by decide, [], by simp [print, zero, ofDigit], by simp [zero], fun _ => rfl⟩
  have listed : Nat.digits 10 number ≠ [] := Nat.digits_ne_nil_iff_ne_zero.mpr zero
  have top := Nat.getLast_digit_ne_zero 10 zero
  refine ⟨(Nat.digits 10 number).getLast listed, Nat.digits_lt_base (by decide) (List.getLast_mem listed),
    ((Nat.digits 10 number).dropLast.map ofDigit).reverse, ?_, by simp [top, zero],
    fun none => absurd none zero⟩
  rw [print, if_neg zero]
  conv_lhs => rw [← List.dropLast_append_getLast listed]
  simp

end Decimal

end IronCache
