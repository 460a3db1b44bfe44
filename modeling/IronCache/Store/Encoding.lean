import IronCache.Lib.Bytes

/-!
# Types, encodings and thresholds

The value encodings and their thresholds (`ironcache-storage/src/lib.rs`), and the classification of
strings (`ironcache-store/src/encoding.rs`).
-/

namespace IronCache.Store

open Decimal

inductive DataType where
  | string
  | list
  | set
  | hash
  | zset
deriving DecidableEq

inductive Encoding where
  | int
  | embStr
  | raw
  | listPack
  | listPackEx
  | quickList
  | intSet
  | hashTable
  | skipList
deriving DecidableEq

def usizeMax : ℕ := 2 ^ 64 - 1

structure EncodingThresholds where
  hashMaxListpackEntries : ℕ
  hashMaxListpackValue : ℕ
  listMaxListpackSize : ℤ
  setMaxIntsetEntries : ℕ
  setMaxListpackEntries : ℕ
  setMaxListpackValue : ℕ
  zsetMaxListpackEntries : ℕ
  zsetMaxListpackValue : ℕ

namespace EncodingThresholds

def defaults : EncodingThresholds where
  hashMaxListpackEntries := 512
  hashMaxListpackValue := 64
  listMaxListpackSize := -2
  setMaxIntsetEntries := 512
  setMaxListpackEntries := 128
  setMaxListpackValue := 64
  zsetMaxListpackEntries := 128
  zsetMaxListpackValue := 64

/-- The thresholds under which a value is rebuilt: no conversion happens on the way. -/
def unlimited : EncodingThresholds where
  hashMaxListpackEntries := usizeMax
  hashMaxListpackValue := usizeMax
  listMaxListpackSize := -5
  setMaxIntsetEntries := usizeMax
  setMaxListpackEntries := usizeMax
  setMaxListpackValue := usizeMax
  zsetMaxListpackEntries := usizeMax
  zsetMaxListpackValue := usizeMax

/-- The bytes and the entries a listpack may hold. -/
def listBudget (thresholds : EncodingThresholds) : ℕ × ℕ :=
  if thresholds.listMaxListpackSize = -1 then (4 * 1024, usizeMax)
  else if thresholds.listMaxListpackSize = -2 then (8 * 1024, usizeMax)
  else if thresholds.listMaxListpackSize = -3 then (16 * 1024, usizeMax)
  else if thresholds.listMaxListpackSize = -4 then (32 * 1024, usizeMax)
  else if thresholds.listMaxListpackSize = -5 then (64 * 1024, usizeMax)
  else if 0 < thresholds.listMaxListpackSize then
    (8 * 1024, thresholds.listMaxListpackSize.toNat)
  else (8 * 1024, usizeMax)

theorem listBudget_le (thresholds : EncodingThresholds) : thresholds.listBudget.1 ≤ 64 * 1024 := by
  unfold listBudget
  split_ifs <;> simp

theorem listBudget_unlimited : unlimited.listBudget = (64 * 1024, usizeMax) := rfl

end EncodingThresholds

def i64Min : ℤ := -2 ^ 63

def i64Max : ℤ := 2 ^ 63 - 1

def minus : UInt8 := 45

def splitSign : Bytes → Bool × Bytes
  | [] => (false, [])
  | byte :: rest => if byte = minus then (true, rest) else (false, byte :: rest)

/-- A magnitude under a sign, if it is in the range of a machine integer. -/
def signed (negative : Bool) (magnitude : ℕ) : Option ℤ :=
  if negative then if magnitude ≤ 2 ^ 63 then some (-magnitude) else none
  else if magnitude < 2 ^ 63 then some magnitude else none

def parseSetI64 (arg : Bytes) : Option ℤ :=
  let (negative, digits) := splitSign arg
  if digits = [] then none
  else (parseFrom (2 ^ 64) 0 digits).bind (signed negative)

/-- The integer of a numeral without superfluous zeros or signs. -/
def parseCanonicalI64 (bytes : Bytes) : Option ℤ :=
  let (negative, digits) := splitSign bytes
  match digits with
  | [] => none
  | first :: rest =>
    if first = 48 then if rest = [] ∧ negative = false then some 0 else none
    else (parseFrom (2 ^ 64) 0 digits).bind (signed negative)

/-- `str::parse::<i64>`: either sign, and any number of leading zeros. -/
def strParseI64 : Bytes → Option ℤ
  | [] => none
  | first :: rest =>
    if first = 43 then if rest = [] then none
      else (parseFrom (2 ^ 64) 0 rest).bind (signed false)
    else parseSetI64 (first :: rest)

/-- `format_i64`: the decimal digits after the sign. -/
def intDecimalBytes (number : ℤ) : Bytes :=
  if number < 0 then minus :: print number.natAbs else print number.natAbs

def intDecimalLen (number : ℤ) : ℕ := (intDecimalBytes number).length

inductive Classified where
  | int (number : ℤ)
  | embStr
  | raw
deriving DecidableEq

def Classified.encoding : Classified → Encoding
  | .int _ => .int
  | .embStr => .embStr
  | .raw => .raw

def embstrThreshold : ℕ := 44

def classify (bytes : Bytes) : Classified :=
  match parseCanonicalI64 bytes with
  | some number => .int number
  | none => if bytes.length ≤ embstrThreshold then .embStr else .raw

def InI64 (number : ℤ) : Prop := i64Min ≤ number ∧ number ≤ i64Max

variable {number : ℤ}

theorem signed_natAbs (fits : InI64 number) : signed (decide (number < 0)) number.natAbs = some number := by
  obtain ⟨low, high⟩ := fits
  unfold i64Min at low
  unfold i64Max at high
  by_cases negative : number < 0
  · simp only [signed, negative, decide_true, if_true]
    rw [if_pos (by omega)]
    congr 1
    omega
  simp only [signed, negative, decide_false, Bool.false_eq_true, if_false]
  rw [if_pos (by omega)]
  congr 1
  omega

theorem natAbs_lt (fits : InI64 number) : number.natAbs < 2 ^ 64 := by
  obtain ⟨low, high⟩ := fits
  unfold i64Min at low
  unfold i64Max at high
  omega

theorem ofDigit_ne (small : digit < 10) :
    ofDigit digit ≠ minus ∧ ofDigit digit ≠ 43 ∧ (ofDigit digit = 48 ↔ digit = 0) := by
  interval_cases digit <;> decide

theorem splitSign_intDecimalBytes :
    splitSign (intDecimalBytes number) = (decide (number < 0), print number.natAbs) := by
  by_cases negative : number < 0
  · simp [intDecimalBytes, negative, splitSign]
  · obtain ⟨digit, small, rest, printed, -, -⟩ := head_print number.natAbs
    simp [intDecimalBytes, negative, splitSign, printed, (ofDigit_ne small).1]

theorem parseSetI64_intDecimalBytes (fits : InI64 number) :
    parseSetI64 (intDecimalBytes number) = some number := by
  unfold parseSetI64
  rw [splitSign_intDecimalBytes]
  simp only [print_ne_nil, if_false, parseFrom_print (natAbs_lt fits), Option.bind_some, signed_natAbs fits]

private theorem parseCanonicalI64_intDecimalBytes (fits : InI64 number) :
    parseCanonicalI64 (intDecimalBytes number) = some number := by
  unfold parseCanonicalI64
  rw [splitSign_intDecimalBytes]
  obtain ⟨digit, small, rest, printed, zero, alone⟩ := head_print number.natAbs
  have read := parseFrom_print (natAbs_lt fits)
  rw [printed] at read
  simp only [printed]
  by_cases isZero : digit = 0
  · have none : number = 0 := Int.natAbs_eq_zero.mp (zero.mp isZero)
    rw [if_pos ((ofDigit_ne small).2.2.mpr isZero), if_pos]
    · rw [none]
    · exact ⟨alone (zero.mp isZero), by simp [none]⟩
  · rw [if_neg (fun same => isZero ((ofDigit_ne small).2.2.mp same)), read, Option.bind_some,
      signed_natAbs fits]

theorem strParseI64_intDecimalBytes (fits : InI64 number) :
    strParseI64 (intDecimalBytes number) = some number := by
  have parsed := parseSetI64_intDecimalBytes fits
  obtain ⟨digit, small, rest, printed, -, -⟩ := head_print number.natAbs
  by_cases negative : number < 0
  · simp only [intDecimalBytes, negative, if_true] at parsed ⊢
    rw [strParseI64, if_neg (by decide), parsed]
  · simp only [intDecimalBytes, negative, if_false, printed] at parsed ⊢
    rw [strParseI64, if_neg (ofDigit_ne small).2.1, parsed]

theorem classify_intDecimalBytes (fits : InI64 number) : classify (intDecimalBytes number) = .int number := by
  rw [classify, parseCanonicalI64_intDecimalBytes fits]

theorem inI64_of_signed (read : signed negative magnitude = some number) : InI64 number := by
  unfold signed at read
  unfold InI64 i64Min i64Max
  split_ifs at read with sign large small <;> cases read <;> omega

theorem inI64_of_classify (read : classify bytes = .int number) : InI64 number := by
  unfold classify at read
  split at read
  · rename_i found parsed
    cases read
    unfold parseCanonicalI64 at parsed
    dsimp only at parsed
    split at parsed
    · cases parsed
    split_ifs at parsed
    · cases parsed
      exact ⟨by decide, by decide⟩
    · obtain ⟨magnitude, -, signed⟩ := Option.bind_eq_some_iff.mp parsed
      exact inI64_of_signed signed
  · split_ifs at read

end IronCache.Store
