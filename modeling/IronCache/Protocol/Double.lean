import IronCache.Protocol.Value
import Mathlib.Algebra.Order.Field.Rat
import Mathlib.Data.List.DropRight
import Mathlib.Tactic.Ring

/-!
# Doubles in replies

How a double is printed (`ironcache-protocol/src/encode.rs`), and that the printed number has its
value. The library that finds the shortest digits is a parameter.
-/

namespace IronCache.Protocol

open Store
open List
open Decimal

def isInfinite (number : F64) : Bool := number.bits &&& 0x7FFFFFFFFFFFFFFF == 0x7FF0000000000000

def isSignNegative (number : F64) : Bool := decide (0x8000000000000000 ≤ number.bits)

/-- The text before and behind the first separator. -/
def splitOnce (isSeparator : UInt8 → Bool) (text : Bytes) : Option (Bytes × Bytes) :=
  match text.dropWhile (!isSeparator ·) with
  | [] => none
  | _ :: behind => some (text.takeWhile (!isSeparator ·), behind)

def isExponentMark (byte : UInt8) : Bool := byte = 101 || byte = 69

def isPoint (byte : UInt8) : Bool := byte = 46

/-- A signed decimal number that fits 32 bits. -/
def parseI32 : Bytes → Option ℤ
  | [] => none
  | first :: others =>
    let unsigned (bound : ℕ) (digits : Bytes) : Option ℤ :=
      if digits = [] then none else (parseFrom bound 0 digits).map Int.ofNat
    if first = 45 then (unsigned (2 ^ 31 + 1) others).map (- ·)
    else if first = 43 then unsigned (2 ^ 31) others
    else unsigned (2 ^ 31) (first :: others)

/-- Digits without zeros in front and behind; those behind move into the exponent. -/
def trimZeros (digits : Bytes) (k : ℤ) : Bytes × ℤ :=
  let trimmed := digits.dropWhile (· = 48)
  if trimmed = [] then ([48], k)
  else
    let significant := trimmed.rdropWhile (· = 48)
    (significant, k + (trimmed.length - significant.length : ℕ))

def splitExponent (text : Bytes) : Bytes × ℤ :=
  match splitOnce isExponentMark text with
  | some (mantissa, exponent) => (mantissa, (parseI32 exponent).getD 0)
  | none => (text, 0)

/-- The sign, the digits and the decimal exponent of a printed number. -/
def decomposeRyu (text : Bytes) : Bool × Bytes × ℤ :=
  let neg := decide (text.head? = some 45)
  let (mantissa, exp) := splitExponent (if neg then text.tail else text)
  let (whole, fraction) := (splitOnce isPoint mantissa).getD (mantissa, [])
  (neg, trimZeros (whole ++ fraction) (exp - fraction.length))

/-- A digit, with the fallback of a conversion that does not fit a byte. -/
def digitByte (number : ℕ) : UInt8 := 48 + UInt8.ofNat (if number < 256 then number else 0)

/-- The last two digits of an exponent; the tens are left out when nothing stands before them. -/
def emitTens (cent : Bool) (exp : ℕ) : Bytes :=
  if 9 < exp then [digitByte (exp / 10), digitByte ((exp - exp / 10 * 10) % 10)]
  else if cent then [48, digitByte (exp % 10)]
  else [digitByte (exp % 10)]

def emitExponent (exp : ℕ) : Bytes :=
  if 99 < exp then digitByte (exp / 100) :: emitTens true (exp - exp / 100 * 100)
  else emitTens false exp

def emitDigits (digits : Bytes) (k : ℤ) (neg : Bool) : Bytes :=
  let ndigits : ℤ := digits.length
  let exp := (k + ndigits - 1).natAbs
  let maxTrailingZeros : ℤ := if neg then 6 else 7
  if 0 ≤ k ∧ (exp : ℤ) < ndigits + maxTrailingZeros then digits ++ List.replicate k.toNat 48
  else if k < 0 ∧ (-7 < k ∨ exp < 4) then
    let offset := ndigits - k.natAbs
    if offset ≤ 0 then 48 :: 46 :: (List.replicate (-offset).toNat 48 ++ digits)
    else digits.take offset.toNat ++ 46 :: digits.drop offset.toNat
  else
    let nd := min digits.length (18 - if neg then 1 else 0)
    digits.take 1 ++ (if 1 < nd then 46 :: (digits.take nd).drop 1 else []) ++
      [101, if k + ndigits - 1 < 0 then 45 else 43] ++ emitExponent exp

/-- The printed form of a double; `ryu` prints the shortest digits of a finite number that is not
zero. -/
def formatDouble (ryu : F64 → Bytes) (number : F64) : Bytes :=
  if number.isNan then utf8 "nan"
  else if isInfinite number then if isSignNegative number then utf8 "-inf" else utf8 "inf"
  else if number.isZero then if isSignNegative number then utf8 "-0" else utf8 "0"
  else
    let (neg, digits, k) := decomposeRyu (ryu number)
    if neg then 45 :: emitDigits digits k neg else emitDigits digits k neg

example : formatDouble (fun _ => utf8 "-12.5") ⟨0xC029000000000000⟩ = utf8 "-12.5" := by
  decide +kernel

example : formatDouble (fun _ => utf8 "1e100") ⟨0x54B249AD2594C37D⟩ = utf8 "1e+100" := by
  decide +kernel

example : formatDouble (fun _ => utf8 "300.0") ⟨0x4072C00000000000⟩ = utf8 "300" := by
  decide +kernel

def isNumeral (text : Bytes) : Bool := text ≠ [] && text.all isDigit

def isMantissa (text : Bytes) : Bool :=
  match splitOnce isPoint text with
  | none => isNumeral text
  | some (whole, fraction) => isNumeral whole && isNumeral fraction

/-- A decimal number with a fraction and an exponent or without, or one of the special values. -/
def isUnsignedDouble (text : Bytes) : Bool :=
  text = utf8 "inf" || text = utf8 "nan" ||
    match splitOnce isExponentMark text with
    | none => isMantissa text
    | some (mantissa, exponent) =>
      isMantissa mantissa &&
        isNumeral (if exponent.head? = some 45 ∨ exponent.head? = some 43 then exponent.tail
          else exponent)

def isDouble (text : Bytes) : Bool :=
  isUnsignedDouble (if text.head? = some 45 then text.tail else text)

variable {isSeparator : UInt8 → Bool} {before behind whole fraction digits : Bytes} {byte : UInt8}

theorem splitOnce_append (clean : ∀ byte ∈ before, isSeparator byte = false)
    (separates : isSeparator separator = true) :
    splitOnce isSeparator (before ++ separator :: behind) = some (before, behind) := by
  have drops : (before ++ separator :: behind).dropWhile (!isSeparator ·) = separator :: behind := by
    rw [dropWhile_append_of_pos (by simpa using clean), dropWhile_cons_of_neg (by simp [separates])]
  have takes : (before ++ separator :: behind).takeWhile (!isSeparator ·) = before := by
    rw [takeWhile_append_of_pos (by simpa using clean),
      takeWhile_cons_of_neg (by simp [separates]), append_nil]
  rw [splitOnce, drops, takes]

variable {text : Bytes}

theorem splitOnce_eq_none (clean : ∀ byte ∈ text, isSeparator byte = false) :
    splitOnce isSeparator text = none := by
  have drops : text.dropWhile (!isSeparator ·) = [] := by
    simpa using clean
  rw [splitOnce, drops]

theorem isNumeral_iff : isNumeral text = true ↔ text ≠ [] ∧ ∀ byte ∈ text, isDigit byte = true := by
  simp [isNumeral]

theorem not_mark_of_isDigit (digit : isDigit byte = true) :
    isExponentMark byte = false ∧ isPoint byte = false ∧ byte ≠ 45 ∧ byte ≠ 43 := by
  simp only [isDigit, Bool.and_eq_true, decide_eq_true_eq, UInt8.le_iff_toNat_le] at digit
  refine ⟨?_, ?_, ?_, ?_⟩ <;> simp only [isExponentMark, isPoint, Bool.or_eq_false_iff,
    decide_eq_false_iff_not, ne_eq, ← UInt8.toNat_inj] <;> simp at digit ⊢ <;> omega

def fractionText (fraction : Bytes) : Bytes := if fraction = [] then [] else 46 :: fraction

section Parts

variable (numeral : isNumeral whole = true) (decimals : ∀ byte ∈ fraction, isDigit byte = true)
include numeral

theorem head_ne_sign (behind rest : Bytes) : (whole ++ behind ++ rest).head? ≠ some 45 := by
  obtain ⟨nonempty, each⟩ := isNumeral_iff.mp numeral
  cases whole with
  | nil => exact absurd rfl nonempty
  | cons first others => simpa using (not_mark_of_isDigit (each first (by simp))).2.2.1

private theorem splitPoint_eq :
    (splitOnce isPoint (whole ++ fractionText fraction)).getD (whole ++ fractionText fraction, []) =
      (whole, fraction) := by
  have clean := fun byte member =>
    (not_mark_of_isDigit ((isNumeral_iff.mp numeral).2 byte member)).2.1
  unfold fractionText
  split_ifs with none
  · rw [append_nil, splitOnce_eq_none clean, none]
    rfl
  · rw [splitOnce_append clean rfl]
    rfl

include decimals

theorem mem_mantissa (member : byte ∈ whole ++ fractionText fraction) : isDigit byte = true ∨ byte = 46 := by
  rcases mem_append.mp member with inWhole | inFraction
  · exact .inl ((isNumeral_iff.mp numeral).2 byte inWhole)
  unfold fractionText at inFraction
  split_ifs at inFraction
  · cases inFraction
  · rcases mem_cons.mp inFraction with rfl | later
    · exact .inr rfl
    · exact .inl (decimals byte later)

theorem mantissa_clean : ∀ byte ∈ whole ++ fractionText fraction, isExponentMark byte = false := by
  intro byte member
  rcases mem_mantissa numeral decimals member with digit | rfl
  · exact (not_mark_of_isDigit digit).1
  · rfl

private theorem isMantissa_parts : isMantissa (whole ++ fractionText fraction) = true := by
  have clean := fun byte member =>
    (not_mark_of_isDigit ((isNumeral_iff.mp numeral).2 byte member)).2.1
  unfold isMantissa fractionText
  split_ifs with none
  · rw [append_nil, splitOnce_eq_none clean]
    exact numeral
  · rw [splitOnce_append clean rfl]
    simpa [numeral, isNumeral_iff, none] using decimals

end Parts

private theorem digitByte_spec (small : number < 10) :
    isDigit (digitByte number) = true ∧ toDigit (digitByte number) = number := by
  interval_cases number <;> decide

/-- The number that digits spell. -/
def digitsValue (digits : Bytes) : ℕ := Nat.ofDigits 10 (digits.reverse.map toDigit)

/-- The number that digits spell, moved by a decimal exponent. -/
def decimal (digits : Bytes) (k : ℤ) : ℚ := digitsValue digits * 10 ^ k

theorem digitsValue_append :
    digitsValue (front ++ back) = digitsValue front * 10 ^ back.length + digitsValue back := by
  simp only [digitsValue, reverse_append, map_append, Nat.ofDigits_append, length_map, length_reverse]
  ring

theorem digitsValue_zeros (zeros : ℕ) : digitsValue (replicate zeros 48) = 0 := by
  rw [digitsValue, reverse_replicate, map_replicate]
  exact Nat.ofDigits_replicate_zero

theorem decimal_zeros (front back : ℕ) (digits : Bytes) (k : ℤ) :
    decimal (replicate front 48 ++ (digits ++ replicate back 48)) k = decimal digits (k + back) := by
  simp only [decimal, digitsValue_append, digitsValue_zeros, length_replicate]
  rw [zpow_add₀ (by norm_num)]
  push_cast
  rw [zpow_natCast]
  ring

/-- The text of an exponent and its value. -/
def Exponent (text : Bytes) (exponent : ℤ) : Prop :=
  text = [] ∧ exponent = 0 ∨ ∃ digits, isNumeral digits = true ∧
    (text = 101 :: 43 :: digits ∧ exponent = digitsValue digits ∨
      text = 101 :: 45 :: digits ∧ exponent = -digitsValue digits)

/-- A decimal literal without a sign, and its value. -/
def Denotes (text : Bytes) (value : ℚ) : Prop :=
  ∃ whole fraction mark exponent, text = whole ++ fractionText fraction ++ mark ∧
    isNumeral whole = true ∧ (∀ byte ∈ fraction, isDigit byte = true) ∧ Exponent mark exponent ∧
    value = decimal (whole ++ fraction) (exponent - fraction.length)

/-- A number that may have a minus sign in front of it. -/
structure Unsigned (text : Bytes) : Prop where
  isDouble : isUnsignedDouble text = true
  noSign : text.head? ≠ some 45

theorem Unsigned.isDouble_signed (unsigned : Unsigned text) (neg : Bool) :
    Protocol.isDouble (if neg then 45 :: text else text) = true := by
  cases neg with
  | true => exact unsigned.isDouble
  | false =>
    change isUnsignedDouble (if text.head? = some 45 then text.tail else text) = true
    rw [if_neg unsigned.noSign]
    exact unsigned.isDouble

theorem Denotes.unsigned (denotes : Denotes text value) : Unsigned text := by
  obtain ⟨whole, fraction, mark, exponent, rfl, numeral, digits, marked, -⟩ := denotes
  have mantissa := isMantissa_parts numeral digits
  have noMark := mantissa_clean numeral digits
  refine ⟨?_, head_ne_sign numeral _ _⟩
  generalize whole ++ fractionText fraction = front at *
  have split (rest : Bytes) : splitOnce isExponentMark (front ++ 101 :: rest) = some (front, rest) :=
    splitOnce_append noMark rfl
  rcases marked with ⟨rfl, -⟩ | ⟨digits, numeral, ⟨rfl, -⟩ | ⟨rfl, -⟩⟩
  · simp [isUnsignedDouble, splitOnce_eq_none noMark, mantissa]
  · simp [isUnsignedDouble, split, mantissa, numeral]
  · simp [isUnsignedDouble, split, mantissa, numeral]

theorem Denotes.clean (denotes : Denotes text value) : 13 ∉ text ∧ 10 ∉ text := by
  obtain ⟨whole, fraction, mark, exponent, rfl, numeral, digits, marked, -⟩ := denotes
  have allowed : ∀ byte ∈ whole ++ fractionText fraction ++ mark,
      isDigit byte = true ∨ byte ∈ utf8 ".e+-" := by
    intro byte member
    rcases mem_append.mp member with inMantissa | inMark
    · exact (mem_mantissa numeral digits inMantissa).imp_right (by rintro rfl; decide +kernel)
    rcases marked with ⟨rfl, -⟩ | ⟨digits, numeral, ⟨rfl, -⟩ | ⟨rfl, -⟩⟩
    · cases inMark
    all_goals
      rcases mem_cons.mp inMark with rfl | behind
      · exact .inr (by decide +kernel)
      rcases mem_cons.mp behind with rfl | digit
      · exact .inr (by decide +kernel)
      · exact .inl ((isNumeral_iff.mp numeral).2 byte digit)
  exact ⟨fun member => absurd (allowed 13 member) (by decide +kernel),
    fun member => absurd (allowed 10 member) (by decide +kernel)⟩

private theorem emitExponent_spec (small : exp < 1000) :
    isNumeral (emitExponent exp) = true ∧ digitsValue (emitExponent exp) = exp := by
  have tens (cent : Bool) {left : ℕ} (small : left < 100) :
      isNumeral (emitTens cent left) = true ∧ digitsValue (emitTens cent left) = left ∧
        (cent = true → (emitTens cent left).length = 2) := by
    have ten := @digitByte_spec (left / 10) (by omega)
    have one := @digitByte_spec (left % 10) (by omega)
    have rest := @digitByte_spec ((left - left / 10 * 10) % 10) (by omega)
    have zero : isDigit 48 = true ∧ toDigit 48 = 0 := by decide
    cases cent <;> simp only [emitTens, if_true, Bool.false_eq_true, if_false] <;> split_ifs <;>
      simp [isNumeral, digitsValue, ten, one, rest, zero, Nat.ofDigits_cons] <;> omega
  unfold emitExponent
  split_ifs with large
  · have hundred := @digitByte_spec (exp / 100) (by omega)
    obtain ⟨numeral, value, length⟩ := tens true (show exp - exp / 100 * 100 < 100 by omega)
    rw [← singleton_append, digitsValue_append, value, length rfl]
    constructor
    · simpa [isNumeral, hundred] using (isNumeral_iff.mp numeral).2
    · simp only [digitsValue, reverse_singleton, map_singleton, hundred, Nat.ofDigits_singleton]
      omega
  · exact ⟨(tens false (by omega)).1, (tens false (by omega)).2.1⟩

/-- The printed digits are a decimal literal, of the same value unless there are more digits than
the layout with an exponent has room for. -/
theorem denotes_emitDigits {k : ℤ} {neg : Bool} (numeral : isNumeral digits = true)
    (small : (k + digits.length - 1).natAbs < 1000) : ∃ value, Denotes (emitDigits digits k neg) value ∧
      (digits.length ≤ 17 → value = decimal digits k) := by
  obtain ⟨nonempty, each⟩ := isNumeral_iff.mp numeral
  have positive : 0 < digits.length := length_pos_iff.mpr nonempty
  have zeros (count : ℕ) : ∀ byte ∈ replicate count (48 : UInt8), isDigit byte = true := by
    intro byte member
    rw [eq_of_mem_replicate member]
    rfl
  unfold emitDigits
  dsimp only
  -- the sign moves the thresholds only
  generalize (if neg = true then (6 : ℤ) else 7) = most
  split
  · refine ⟨_, ⟨digits ++ replicate k.toNat 48, [], [], 0, by simp [fractionText],
      isNumeral_iff.mpr ⟨by simp [nonempty], ?_⟩, by simp, .inl ⟨rfl, rfl⟩, rfl⟩, fun _ => ?_⟩
    · exact forall_mem_append.mpr ⟨each, zeros _⟩
    · have moved := decimal_zeros 0 k.toNat digits 0
      simpa [show max k 0 = k by omega] using moved
  split
  · split
    · refine ⟨_, ⟨[48], replicate (-(digits.length - k.natAbs : ℤ)).toNat 48 ++ digits, [], 0,
        by simp [fractionText, nonempty], rfl, forall_mem_append.mpr ⟨zeros _, each⟩,
        .inl ⟨rfl, rfl⟩, rfl⟩, fun _ => ?_⟩
      have moved := decimal_zeros (1 + (-(digits.length - k.natAbs : ℤ)).toNat) 0 digits k
      rw [replicate_add] at moved
      simp only [length_append, length_replicate]
      have place : (0 : ℤ) - ((-(digits.length - k.natAbs : ℤ)).toNat + digits.length : ℕ) = k := by
        omega
      rw [place]
      simpa using moved
    · refine ⟨_, ⟨digits.take (digits.length - k.natAbs : ℤ).toNat,
        digits.drop (digits.length - k.natAbs : ℤ).toNat, [], 0, ?_, isNumeral_iff.mpr ⟨?_,
        fun byte member => each byte (mem_of_mem_take member)⟩,
        fun byte member => each byte (mem_of_mem_drop member), .inl ⟨rfl, rfl⟩, rfl⟩, fun _ => ?_⟩
      · rw [fractionText, if_neg (by simp only [drop_eq_nil_iff]; omega), append_nil]
      · simp only [ne_eq, take_eq_nil_iff, nonempty, or_false]
        omega
      · rw [take_append_drop, length_drop]
        congr 1
        omega
  · obtain ⟨numeral, value⟩ := emitExponent_spec small
    generalize fits : min digits.length (18 - if neg = true then 1 else 0) = nd
    have room : digits.length ≤ 17 → nd = digits.length := by
      intro short
      split_ifs at fits <;> omega
    refine ⟨_, ⟨digits.take 1, (digits.take nd).drop 1, [101, if k + digits.length - 1 < 0 then 45 else 43] ++
        emitExponent (k + digits.length - 1).natAbs, k + digits.length - 1, ?_,
      isNumeral_iff.mpr ⟨by simp [nonempty], fun byte member => each byte (mem_of_mem_take member)⟩,
      fun byte member => each byte (mem_of_mem_take (mem_of_mem_drop member)),
      .inr ⟨_, numeral, ?_⟩, rfl⟩, fun short => ?_⟩
    · have shown : (if 1 < nd then 46 :: (digits.take nd).drop 1 else []) =
          fractionText ((digits.take nd).drop 1) := by
        simp only [fractionText, drop_eq_nil_iff, length_take]
        split_ifs <;> first | rfl | omega
      rw [shown, append_assoc]
    · rw [value]
      split_ifs with below
      · exact .inr ⟨rfl, by omega⟩
      · exact .inl ⟨rfl, by omega⟩
    · rw [room short, take_length, take_append_drop, length_drop]
      congr 1
      omega

/-- The exponent of a printed number, when it has one. -/
def exponentText : Option ℤ → Bytes
  | none => []
  | some exponent =>
    101 :: ((if exponent < 0 then [45] else []) ++ print exponent.natAbs)

/-- A number as the digit printer documents it: digits with a fraction and an exponent or without,
of no more than seventeen digits and an exponent within the range of doubles. -/
def RyuText (text : Bytes) : Prop :=
  ∃ (neg : Bool) (whole fraction : Bytes) (exponent : Option ℤ),
    text = (if neg then [45] else []) ++ (whole ++ fractionText fraction ++ exponentText exponent) ∧
    isNumeral whole = true ∧ (∀ byte ∈ fraction, isDigit byte = true) ∧
    whole.length + fraction.length ≤ 40 ∧ ∀ e ∈ exponent, e.natAbs ≤ 400

theorem trimZeros_cases (digits : Bytes) (k : ℤ) :
    digits = replicate digits.length 48 ∧ trimZeros digits k = ([48], k) ∨
    ∃ (front : ℕ) (significant : Bytes) (back : ℕ),
      digits = replicate front 48 ++ (significant ++ replicate back 48) ∧
      trimZeros digits k = (significant, k + back) ∧ significant ≠ [] ∧
      significant.head? ≠ some 48 ∧ significant.getLast? ≠ some 48 := by
  have zeros {text : Bytes} (each : ∀ byte ∈ text, decide (byte = 48) = true) :
      text = replicate text.length 48 := eq_replicate_of_mem (by simpa using each)
  have clean (text : Bytes) : (text.dropWhile (· = 48)).head? ≠ some 48 := by
    intro same
    simpa [same] using head?_dropWhile_not (fun byte => decide (byte = 48)) text
  have whole := takeWhile_append_dropWhile (p := (fun byte => decide (byte = 48))) (l := digits)
  have parts := @rdropWhile_append_rtakeWhile _ (· = 48) (digits.dropWhile (· = 48))
  have start := clean digits
  unfold trimZeros
  dsimp only
  split_ifs with none
  · exact .inl ⟨zeros (by simpa using none), rfl⟩
  have removed := congrArg List.length parts
  rw [length_append] at removed
  refine .inr ⟨(digits.takeWhile (· = 48)).length, (digits.dropWhile (· = 48)).rdropWhile (· = 48),
    ((digits.dropWhile (· = 48)).rtakeWhile (· = 48)).length, ?_, ?_, ?_, ?_, ?_⟩
  · rw [← zeros fun byte => mem_takeWhile_imp, ← zeros fun byte => mem_rtakeWhile_imp, parts, whole]
  · rw [← removed, Nat.add_sub_cancel_left]
  · intro nothing
    obtain ⟨first, others, left⟩ := exists_cons_of_ne_nil none
    have same := rdropWhile_eq_nil_iff.mp nothing first (by simp [left])
    exact start (by simpa [left] using same)
  · rw [← parts] at start
    cases significant : (digits.dropWhile (· = 48)).rdropWhile (· = 48) with
    | nil => simp
    | cons first others => simpa [significant] using start
  · rw [rdropWhile, getLast?_reverse]
    exact clean _

private theorem trimZeros_spec (numeral : isNumeral digits = true) :
    isNumeral (trimZeros digits k).1 = true ∧ (trimZeros digits k).1.length ≤ digits.length ∧
      k ≤ (trimZeros digits k).2 ∧ (trimZeros digits k).2 ≤ k + digits.length := by
  obtain ⟨nonempty, each⟩ := isNumeral_iff.mp numeral
  rcases trimZeros_cases digits k with ⟨-, trimmed⟩ | ⟨front, significant, back, rfl, trimmed, some, -⟩
  · rw [trimmed]
    exact ⟨rfl, length_pos_iff.mpr nonempty, le_refl k, by omega⟩
  · rw [trimmed]
    refine ⟨isNumeral_iff.mpr ⟨some, fun byte member => each byte (by simp [member])⟩, ?_, ?_, ?_⟩
    all_goals
      simp only [length_append, length_replicate]
      omega

private theorem parseI32_print (small : e.natAbs ≤ 400) :
    parseI32 ((if e < 0 then [45] else []) ++ print e.natAbs) = some e := by
  have nonempty := print_ne_nil e.natAbs
  split_ifs with negative
  · rw [singleton_append, parseI32]
    dsimp only
    rw [if_pos rfl, if_neg nonempty, parseFrom_print (by omega)]
    simp only [Option.map_some, Option.some.injEq, Int.ofNat_eq_natCast]
    omega
  · have parsed : parseFrom (2 ^ 31) 0 (print e.natAbs) = some e.natAbs :=
      parseFrom_print (by omega)
    obtain ⟨digit, digitSmall, rest, printed, -⟩ := head_print e.natAbs
    have notSign : ofDigit digit ≠ 45 ∧ ofDigit digit ≠ 43 := by
      interval_cases digit <;> decide
    rw [nil_append]
    rw [printed] at parsed ⊢
    rw [parseI32]
    dsimp only
    rw [if_neg notSign.1, if_neg notSign.2, if_neg (by simp), parsed]
    simp only [Option.map_some, Option.some.injEq, Int.ofNat_eq_natCast]
    omega

private theorem splitExponent_eq (clean : ∀ byte ∈ mantissa, isExponentMark byte = false)
    (small : ∀ e ∈ exponent, e.natAbs ≤ 400) :
    splitExponent (mantissa ++ exponentText exponent) = (mantissa, exponent.getD 0) := by
  cases exponent with
  | none =>
    rw [exponentText, append_nil, splitExponent, splitOnce_eq_none clean]
    rfl
  | some e =>
    rw [exponentText, splitExponent, splitOnce_append clean rfl]
    dsimp only
    rw [parseI32_print (small e rfl), Option.getD_some]

theorem decomposeRyu_eq (neg : Bool) (numeral : isNumeral whole = true)
    (digits : ∀ byte ∈ fraction, isDigit byte = true) (small : ∀ e ∈ exponent, e.natAbs ≤ 400) :
    decomposeRyu ((if neg then [45] else []) ++
        (whole ++ fractionText fraction ++ exponentText exponent)) =
      (neg, trimZeros (whole ++ fraction) (exponent.getD 0 - fraction.length)) := by
  have unsigned := head_ne_sign numeral (fractionText fraction) (exponentText exponent)
  have parts := splitExponent_eq (mantissa_clean numeral digits) small
  have point := @splitPoint_eq whole fraction numeral
  cases neg
  all_goals
    simp only [decomposeRyu, Bool.false_eq_true, if_false, if_true, nil_append, singleton_append,
      head?_cons, tail_cons, unsigned, decide_false, decide_true]
    rw [parts]
    dsimp only
    rw [point]

theorem trimZeros_range {exponent : Option ℤ} (numeral : isNumeral whole = true)
    (digits : ∀ byte ∈ fraction, isDigit byte = true)
    (length : whole.length + fraction.length ≤ 300) (small : ∀ e ∈ exponent, e.natAbs ≤ 400) :
    let trimmed := trimZeros (whole ++ fraction) (exponent.getD 0 - fraction.length)
    isNumeral trimmed.1 = true ∧ (trimmed.2 + trimmed.1.length - 1).natAbs < 1000 := by
  obtain ⟨nonempty, each⟩ := isNumeral_iff.mp numeral
  have all : isNumeral (whole ++ fraction) = true :=
    isNumeral_iff.mpr ⟨by simp [nonempty], forall_mem_append.mpr ⟨each, digits⟩⟩
  obtain ⟨trimmed, fewer, least, most⟩ :=
    trimZeros_spec all
  refine ⟨trimmed, ?_⟩
  have range : (exponent.getD 0).natAbs ≤ 400 := by
    cases exponent with
    | none => simp
    | some e => exact small e rfl
  simp only [length_append] at fewer most
  omega

private theorem decomposeRyu_spec (documented : RyuText text) : isNumeral (decomposeRyu text).2.1 = true ∧
      ((decomposeRyu text).2.2 + (decomposeRyu text).2.1.length - 1).natAbs < 1000 := by
  obtain ⟨neg, whole, fraction, exponent, rfl, numeral, digits, length, small⟩ := documented
  rw [decomposeRyu_eq neg numeral digits small]
  exact trimZeros_range numeral digits (by omega) small

/-- A decimal literal with its sign, and its value. -/
def Literal (text : Bytes) (value : ℚ) : Prop :=
  ∃ (neg : Bool) (body : Bytes) (magnitude : ℚ), text = (if neg then 45 :: body else body) ∧
    Denotes body magnitude ∧ value = if neg then -magnitude else magnitude

/-- Printing keeps the value of every number in the digit printer's form. Its buffer of 24 bytes
leaves far fewer zeros around the digits than are allowed here. -/
theorem double_exact (neg : Bool) (whole fraction : Bytes) (exponent : Option ℤ)
    (numeral : isNumeral whole = true) (digits : ∀ byte ∈ fraction, isDigit byte = true)
    (length : whole.length + fraction.length ≤ 300)
    (significant : (((whole ++ fraction).dropWhile (· = 48)).rdropWhile (· = 48)).length ≤ 17)
    (range : ∀ e ∈ exponent, e.natAbs ≤ 330) (nonzero : digitsValue (whole ++ fraction) ≠ 0) :
    ∃ digits k, decomposeRyu ((if neg then [45] else []) ++
        (whole ++ fractionText fraction ++ exponentText exponent)) = (neg, digits, k) ∧
      isNumeral digits = true ∧ digits.head? ≠ some 48 ∧ digits.getLast? ≠ some 48 ∧
      decimal digits k = decimal (whole ++ fraction) (exponent.getD 0 - fraction.length) ∧
      Literal (if neg then 45 :: emitDigits digits k neg else emitDigits digits k neg)
        ((if neg then -1 else 1) *
          decimal (whole ++ fraction) (exponent.getD 0 - fraction.length)) := by
  have small : ∀ e ∈ exponent, e.natAbs ≤ 400 := fun e member => (range e member).trans (by decide)
  obtain ⟨trimmed, bounded⟩ := trimZeros_range numeral digits length small
  have short : (trimZeros (whole ++ fraction) (exponent.getD 0 - fraction.length)).1.length ≤ 17 := by
    unfold trimZeros
    dsimp only
    split_ifs
    · simp
    · exact significant
  have parts := decomposeRyu_eq neg numeral digits small
  rcases trimZeros_cases (whole ++ fraction) (exponent.getD 0 - fraction.length) with
    ⟨zeros, -⟩ | ⟨front, kept, back, spelt, trims, -, first, last⟩
  · exact absurd (zeros ▸ digitsValue_zeros _) nonzero
  rw [trims] at trimmed bounded short parts
  obtain ⟨value, denotes, exact⟩ := @denotes_emitDigits _ _ neg trimmed bounded
  have same : decimal kept (exponent.getD 0 - fraction.length + back) =
      decimal (whole ++ fraction) (exponent.getD 0 - fraction.length) := by
    rw [spelt, decimal_zeros]
  refine ⟨_, _, parts, trimmed, first, last, same, neg, _, value, rfl, denotes, ?_⟩
  rw [exact short, same]
  cases neg <;> simp

theorem double_exact_fraction : ∃ digits k, decomposeRyu (utf8 "-12.5e-330") = (true, digits, k) ∧
      decimal digits k = decimal (utf8 "125") (-331) := by
  obtain ⟨digits, k, parts, -, -, -, same, -⟩ := double_exact true (utf8 "12") (utf8 "5")
    (some (-330)) (by decide +kernel) (by decide +kernel) (by decide +kernel) (by decide +kernel)
    (by decide) (by decide +kernel)
  exact ⟨digits, k, parts, same⟩

theorem formatDouble_spec {ryu : F64 → Bytes} {number : F64}
    (documented : number.isNan = false → isInfinite number = false → number.isZero = false →
      RyuText (ryu number)) : isDouble (formatDouble ryu number) = true ∧
        13 ∉ formatDouble ryu number ∧ 10 ∉ formatDouble ryu number := by
  unfold formatDouble
  split_ifs with nan infinite negative zero negative
  · decide +kernel
  · decide +kernel
  · decide +kernel
  · decide +kernel
  · decide +kernel
  · obtain ⟨numeral, small⟩ := decomposeRyu_spec (documented (by simpa using nan)
      (by simpa using infinite) (by simpa using zero))
    generalize decomposeRyu (ryu number) = parts at *
    obtain ⟨value, denotes, -⟩ := denotes_emitDigits numeral small
    refine ⟨denotes.unsigned.isDouble_signed _, ?_⟩
    dsimp only
    split_ifs
    · simpa using denotes.clean
    · exact denotes.clean

end IronCache.Protocol
