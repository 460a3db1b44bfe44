import IronCache.Lib.Bytes
import Mathlib.Logic.Function.Iterate

/-!
# The checksum of a dump

`crc64` of `ironcache-server/src/rdb.rs`.
-/

namespace IronCache.Serve.Crc

open List

/-- The loop of `reflect64`, with the rounds left. -/
def reflect : ℕ → BitVec 64 → BitVec 64 → BitVec 64
  | 0, _, reversed => reversed
  | left + 1, word, reversed => reflect left (word >>> 1) (reversed <<< 1 ||| word &&& 1)

def reflect64 (word : BitVec 64) : BitVec 64 := reflect 64 word 0

def crc64PolyReflected : BitVec 64 := reflect64 0xad93d23594c935a9

def shift (crc : BitVec 64) : BitVec 64 :=
  if crc &&& 1 ≠ 0 then (crc >>> 1) ^^^ crc64PolyReflected else crc >>> 1

def crc64 (crc : BitVec 64) (data : Bytes) : BitVec 64 :=
  data.foldl (fun crc byte => shift^[8] (crc ^^^ byte.toBitVec.setWidth 64)) crc

/-- The bits of a message as they are sent. -/
def sent (data : Bytes) : List Bool := data.flatMap fun byte => (range 8).map byte.toBitVec.getLsbD

/-- One bit into the register. -/
def feed (crc : BitVec 64) (bit : Bool) : BitVec 64 :=
  shift (crc ^^^ (BitVec.ofBool bit).setWidth 64)

/-- What leaves with a bit that is set. -/
def divisor (odd : Bool) : BitVec 64 := if odd then crc64PolyReflected else 0

private theorem divisor_xor : divisor (one ^^ other) = divisor one ^^^ divisor other := by
  cases one <;> cases other <;> simp [divisor]

theorem shift_eq : shift crc = crc >>> 1 ^^^ divisor (crc.getLsbD 0) := by
  have low : crc &&& 1 = (BitVec.ofBool (crc.getLsbD 0)).setWidth 64 :=
    BitVec.and_one_eq_setWidth_ofBool_getLsbD
  rw [shift, low]
  cases crc.getLsbD 0 <;> simp [divisor]

theorem feed_eq : feed crc bit = crc >>> 1 ^^^ divisor (crc.getLsbD 0 ^^ bit) := by
  rw [feed, shift_eq, BitVec.ushiftRight_xor_distrib, BitVec.getLsbD_xor]
  cases bit <;> simp

theorem feed_xor : feed left bit ^^^ feed right other = feed (left ^^^ right) (bit ^^ other) := by
  simp only [feed_eq, BitVec.ushiftRight_xor_distrib, BitVec.getLsbD_xor, divisor_xor]
  ac_rfl

/-- The bits behind the lowest wait in the register for their turn. -/
private theorem iterate_shift (count : ℕ) (crc word : BitVec 64) : shift^[count] (crc ^^^ word) =
      ((range count).map word.getLsbD).foldl feed crc ^^^ word >>> count := by
  induction count generalizing crc word with
  | zero => simp
  | succ count ih =>
    have first : shift (crc ^^^ word) = feed crc (word.getLsbD 0) ^^^ word >>> 1 := by
      rw [shift_eq, feed_eq, BitVec.getLsbD_xor, BitVec.ushiftRight_xor_distrib]
      ac_rfl
    have later : (word >>> 1).getLsbD = word.getLsbD ∘ Nat.succ := by
      funext i
      simp [Nat.add_comm]
    rw [Function.iterate_succ_apply, first, ih, range_succ_eq_map, later, map_cons, map_map,
      foldl_cons, ← BitVec.shiftRight_add, Nat.add_comm 1]

private theorem crc64_eq_foldl (crc : BitVec 64) (data : Bytes) :
    crc64 crc data = (sent data).foldl feed crc := by
  induction data generalizing crc with
  | nil => rfl
  | cons byte data ih =>
    have own : (byte.toBitVec.setWidth 64).getLsbD = byte.toBitVec.getLsbD := by
      funext i
      simpa using fun held => (BitVec.lt_of_getLsbD held).trans (by decide : 8 < 64)
    have gone : byte.toBitVec.setWidth 64 >>> 8 = 0#64 := by
      ext i
      simp
    have step := iterate_shift 8 crc (byte.toBitVec.setWidth 64)
    rw [own, gone, BitVec.xor_zero] at step
    rw [crc64, foldl_cons, step, sent, flatMap_cons, foldl_append]
    exact ih _

variable {crc left right : BitVec 64} {bit : Bool} {bits others : List Bool} {place : ℕ}

/-- A bit in the register moves down by one place, or the division sets the highest. -/
private theorem exists_feed (held : crc.getLsbD place = true) (early : bit = true → 0 < place) :
    ∃ now, place ≤ now + 1 ∧ (feed crc bit).getLsbD now = true := by
  rw [feed_eq]
  cases divides : crc.getLsbD 0 ^^ bit with
  | true =>
    have inside := BitVec.lt_of_getLsbD held
    have top : (divisor true).getLsbD 63 = true := by decide +kernel
    exact ⟨63, by omega, by simp [top]⟩
  | false =>
    have behind : place ≠ 0 := by
      rintro rfl
      cases bit <;> simp_all
    refine ⟨place - 1, by omega, ?_⟩
    simpa [divisor, Nat.add_sub_of_le (Nat.pos_of_ne_zero behind)] using held

/-- Registers stay apart while bits differ below the place where they do. -/
private theorem foldl_feed_ne (held : (left ^^^ right).getLsbD place = true)
    (early : ∀ i, bits[i]? ≠ others[i]? → i < place) (same : bits.length = others.length) :
    bits.foldl feed left ≠ others.foldl feed right := by
  induction bits generalizing others left right place with
  | nil =>
    rw [length_eq_zero_iff.mp same.symm]
    rintro rfl
    simp at held
  | cons bit bits ih =>
    obtain ⟨other, others, rfl⟩ := exists_cons_of_length_eq_add_one same.symm
    obtain ⟨now, moved, holds⟩ := exists_feed held fun differ : (bit ^^ other) = true =>
      early 0 (by simpa using differ)
    rw [← feed_xor] at holds
    rw [foldl_cons, foldl_cons]
    refine ih holds (fun i later => ?_) (by simpa using same)
    have := early (i + 1) later
    omega

private theorem foldl_feed_burst (burst : ∀ i, bits[i]? ≠ others[i]? → start ≤ i ∧ i < start + 64)
    (same : bits.length = others.length) (differ : bits ≠ others) :
    bits.foldl feed crc ≠ others.foldl feed crc := by
  induction bits generalizing others crc start with
  | nil => exact absurd (length_eq_zero_iff.mp same.symm).symm differ
  | cons bit bits ih =>
    obtain ⟨other, others, rfl⟩ := exists_cons_of_length_eq_add_one same.symm
    rw [foldl_cons, foldl_cons]
    by_cases equal : bit = other
    · subst equal
      refine @ih _ others (start - 1) (fun i later => ?_) (by simpa using same) (by simpa using differ)
      have := burst (i + 1) later
      omega
    · have top : (feed crc bit ^^^ feed crc other).getLsbD 63 = true := by
        rw [feed_xor, BitVec.xor_self, show (bit ^^ other) = true by simpa using equal]
        decide +kernel
      refine foldl_feed_ne top (fun i later => ?_) (by simpa using same)
      have := burst 0 (by simpa using equal)
      have := burst (i + 1) later
      omega

private theorem sent_injective : Function.Injective sent := by
  intro a b
  induction a generalizing b with
  | nil => cases b <;> simp [sent]
  | cons byte a ih =>
    cases b with
    | nil => simp [sent]
    | cons other b =>
      intro equal
      obtain ⟨first, rest⟩ := append_inj equal (by simp)
      have bytes : byte = other := by
        refine UInt8.toBitVec_inj.mp (BitVec.eq_of_getLsbD_eq fun i inside => ?_)
        exact map_inj_left.mp first i (mem_range.mpr inside)
      rw [bytes, ih rest]

/-- A burst of at most 64 bits changes the checksum, and a message may be summed in parts. -/
theorem crc64_detects : (∀ a b : Bytes, a.length = b.length → a ≠ b →
      (∃ start, ∀ i, (sent a)[i]? ≠ (sent b)[i]? → start ≤ i ∧ i < start + 64) → crc64 0 a ≠ crc64 0 b) ∧
    ∀ crc x y, crc64 (crc64 crc x) y = crc64 crc (x ++ y) := by
  constructor
  · rintro a b same differ ⟨start, burst⟩
    rw [crc64_eq_foldl, crc64_eq_foldl]
    exact foldl_feed_burst burst (by simp [sent, same]) (sent_injective.ne differ)
  · exact fun crc x y => foldl_append.symm

/-- Two bytes of five are garbled. -/
theorem crc64_detects_garbled : crc64 0 [7, 1, 2, 3, 9] ≠ crc64 0 [7, 255, 2, 0, 9] := by
  refine crc64_detects.1 _ _ rfl (by decide) ⟨8, fun i bits => ?_⟩
  have first : ∀ i < 8, (sent [7, 1, 2, 3, 9])[i]? = (sent [7, 255, 2, 0, 9])[i]? := by decide
  refine ⟨not_lt.mp fun early => bits (first i early), ?_⟩
  by_contra late
  exact bits (by rw [getElem?_eq_none, getElem?_eq_none] <;> simp [sent] <;> omega)

end IronCache.Serve.Crc
