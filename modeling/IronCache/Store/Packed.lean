import IronCache.Lib.Codec
import IronCache.Store.Entry

/-!
# The packed entry

The table entry of `ironcache-store/src/kvobj.rs`: a string key lives with its value in one blob.
Every accessor and update answers as the plain record does.
-/

namespace IronCache.Store

open Codec
open List

def dataTypeToU8 : DataType → UInt8
  | .string => 0
  | .list => 1
  | .set => 2
  | .hash => 3
  | .zset => 4

/-- A byte that names no type is read as a string. -/
def dataTypeFromU8 (byte : UInt8) : DataType :=
  if byte = 1 then .list else if byte = 2 then .set else if byte = 3 then .hash
  else if byte = 4 then .zset else .string

def encodingToU8 : Encoding → UInt8
  | .int => 0
  | .embStr => 1
  | .raw => 2
  | .listPack => 3
  | .quickList => 4
  | .intSet => 5
  | .hashTable => 6
  | .skipList => 7
  | .listPackEx => 8

/-- A byte that names no encoding is read as embstr. -/
def encodingFromU8 (byte : UInt8) : Encoding :=
  if byte = 0 then .int else if byte = 2 then .raw else if byte = 3 then .listPack
  else if byte = 4 then .quickList else if byte = 5 then .intSet else if byte = 6 then .hashTable
  else if byte = 7 then .skipList else if byte = 8 then .listPackEx else .embStr

/-- The type, the encoding and the flags. -/
def headerLen : ℕ := 3

def ttlLen : ℕ := 8

def keylenLen : ℕ := 4

def flagHasTtl : UInt8 := 1

/-- Where the frequency begins in the flags. -/
def freqShift : UInt8 := 1

def freqMask : UInt8 := 3

def maxFreq : ℕ := 3

/-- The header, the deadline if any, the key's length, the key and the value. -/
def buildStrBlobBytes (dataType : DataType) (encoding : Encoding) (expireAt : Option ℕ)
    (key valueBytes : Bytes) : Bytes :=
  dataTypeToU8 dataType :: encodingToU8 encoding :: (if expireAt.isSome then flagHasTtl else 0) ::
      ((expireAt.map (leBytes ttlLen)).getD [] ++ leBytes keylenLen (min key.length (2 ^ 32 - 1)) ++
        key ++ valueBytes)

/-- `slice::get` of a range. -/
def slice (blob : Bytes) (offset count : ℕ) : Option Bytes :=
  if offset + count ≤ blob.length then some ((blob.drop offset).take count) else none

def strFlags (blob : Bytes) : UInt8 := blob.getD 2 0

def strHasTtl (blob : Bytes) : Bool := strFlags blob &&& flagHasTtl != 0

/-- The deadline, if there is one, stands before the key's length. -/
def strKeylenOffset (blob : Bytes) : ℕ := if strHasTtl blob then headerLen + ttlLen else headerLen

def strKeyLen (blob : Bytes) : ℕ :=
  ((slice blob (strKeylenOffset blob) keylenLen).map leValue).getD 0

def strKeyOffset (blob : Bytes) : ℕ := strKeylenOffset blob + keylenLen

/-- A string is one block of bytes; a collection keeps its value beside it. -/
inductive Packed where
  | str (blob : Bytes)
  | coll (evictionRank : ℕ) (expireAt : Option ℕ) (key : Bytes) (value : CollVal)
deriving DecidableEq

namespace Packed

/-- The key, sliced out of the block. -/
def key : Packed → Bytes
  | .str blob => (slice blob (strKeyOffset blob) (strKeyLen blob)).getD []
  | .coll _ _ key _ => key

/-- What stands behind the key. -/
def strValueBytes : Packed → Bytes
  | .str blob => blob.drop (strKeyOffset blob + strKeyLen blob)
  | .coll _ _ _ _ => []

def dataType : Packed → DataType
  | .str blob => dataTypeFromU8 (blob.getD 0 0)
  | .coll _ _ _ value => value.dataType

def encoding : Packed → Encoding
  | .str blob => encodingFromU8 (blob.getD 1 1)
  | .coll _ _ _ value => value.encoding

def expireAt : Packed → Option ℕ
  | .str blob => if strHasTtl blob then (slice blob headerLen ttlLen).map leValue else none
  | .coll _ expireAt _ _ => expireAt

def freq : Packed → ℕ
  | .str blob => ((strFlags blob >>> freqShift) &&& freqMask).toNat
  | .coll evictionRank _ _ _ => evictionRank % 4

/-- The frequency sits in two bits of the flags. -/
def setFreq (freq : ℕ) : Packed → Packed
  | .str blob =>
    .str (blob.set 2 (strFlags blob &&& ~~~(freqMask <<< freqShift) |||
      UInt8.ofNat (min freq maxFreq) <<< freqShift))
  | .coll _ expireAt key value => .coll (min freq maxFreq) expireAt key value

/-- Writes the deadline: over the old one, or into a blob built anew around it. -/
def setExpireAt (deadline : Option ℕ) (packed : Packed) : Packed :=
  match packed with
  | .coll evictionRank _ key value => .coll evictionRank deadline key value
  | .str blob =>
    match strHasTtl blob, deadline with
    | true, some deadline =>
      .str (blob.take headerLen ++ leBytes ttlLen deadline ++ blob.drop (headerLen + ttlLen))
    | false, none => packed
    | _, _ =>
      setFreq packed.freq (.str (buildStrBlobBytes packed.dataType packed.encoding deadline
        packed.key packed.strValueBytes))

/-- The block is built again around the new key. -/
def rekey (newKey : Bytes) (packed : Packed) : Packed :=
  match packed with
  | .coll evictionRank expireAt _ value => .coll evictionRank expireAt newKey value
  | .str _ =>
    setFreq packed.freq (.str (buildStrBlobBytes packed.dataType packed.encoding packed.expireAt
      newKey packed.strValueBytes))

/-- The encoding is the one the thresholds give. -/
def fromNewOwned (key : Bytes) (value : NewValueOwned) (expireAt : Option ℕ)
    (thresholds : EncodingThresholds) : Packed :=
  match Value.ofNew thresholds value with
  | .str encoding bytes => .str (buildStrBlobBytes .string encoding expireAt key bytes)
  | .coll value => .coll 0 expireAt key value

def fromKvobj (object : KvObj) : Packed :=
  match object.value with
  | .int number =>
    .str (buildStrBlobBytes .string .int object.expireAt object.key (intDecimalBytes number))
  | .inline bytes | .raw bytes =>
    .str (buildStrBlobBytes object.dataType object.encoding object.expireAt object.key bytes)
  | .coll value => .coll 0 object.expireAt object.key value

def toKvobj (packed : Packed) : KvObj :=
  { dataType := packed.dataType
    encoding := packed.encoding
    key := packed.key
    value := match packed with
      | .coll _ _ _ value => .coll value
      | .str _ =>
        match packed.encoding with
        | .int =>
          match strParseI64 packed.strValueBytes with
          | some number => .int number
          | none => .raw packed.strValueBytes
        | .raw => .raw packed.strValueBytes
        | _ => .inline packed.strValueBytes
    expireAt := packed.expireAt }

end Packed

/-- The key and the deadline fit their fields of the blob, and the frequency its two bits. -/
structure Entry.Fits (entry : Entry) : Prop where
  short : entry.key.length < 2 ^ 32
  deadline : ∀ deadline, entry.expireAt = some deadline → deadline < 2 ^ 64
  freq : entry.freq ≤ 3

def flagsByte (hasTtl : Bool) (freq : ℕ) : UInt8 :=
  (if hasTtl then flagHasTtl else 0) ||| UInt8.ofNat freq <<< freqShift

/-- The block of a string, field by field. -/
def layout (encoding : Encoding) (freq : ℕ) (expireAt : Option ℕ) (key bytes : Bytes) : Bytes :=
  dataTypeToU8 .string :: encodingToU8 encoding :: flagsByte expireAt.isSome freq ::
    ((expireAt.map (leBytes ttlLen)).getD [] ++ leBytes keylenLen key.length ++ key ++ bytes)

/-- The packed form of an entry. -/
def Entry.pack (entry : Entry) : Packed :=
  match entry.value with
  | .str encoding bytes => .str (layout encoding entry.freq entry.expireAt entry.key bytes)
  | .coll value => .coll entry.freq entry.expireAt entry.key value

section Layout

variable {encoding : Encoding} {freq : ℕ} {expireAt : Option ℕ} {key bytes : Bytes}

theorem encodingFromU8_encodingToU8 : encodingFromU8 (encodingToU8 encoding) = encoding := by
  cases encoding <;> rfl

private theorem flagsByte_hasTtl (small : freq ≤ 3) :
    (flagsByte hasTtl freq &&& flagHasTtl != 0) = hasTtl := by
  interval_cases freq <;> cases hasTtl <;> decide

private theorem flagsByte_freq (small : freq ≤ 3) :
    ((flagsByte hasTtl freq >>> freqShift) &&& freqMask).toNat = freq := by
  interval_cases freq <;> cases hasTtl <;> decide

theorem flagsByte_setFreq (hasTtl : Bool) (small : freq ≤ 3) (next : ℕ) :
    (flagsByte hasTtl freq &&& ~~~(freqMask <<< freqShift) |||
      UInt8.ofNat (min next maxFreq) <<< freqShift) = flagsByte hasTtl (min next maxFreq) := by
  have bounded : min next maxFreq ≤ 3 := min_le_right _ _
  generalize min next maxFreq = clamped at bounded
  interval_cases freq <;> interval_cases clamped <;> cases hasTtl <;> decide

private theorem flagsByte_bump (small : freq ≤ 3) : (flagsByte hasTtl freq &&& ~~~(freqMask <<< freqShift) |||
      min ((flagsByte hasTtl freq >>> freqShift &&& freqMask) + 1) (UInt8.ofNat maxFreq) <<<
        freqShift) = flagsByte hasTtl (min (freq + 1) 3) := by
  interval_cases freq <;> cases hasTtl <;> decide

@[simp]
theorem strFlags_layout :
    strFlags (layout encoding freq expireAt key bytes) = flagsByte expireAt.isSome freq := rfl

theorem strHasTtl_layout (small : freq ≤ 3) :
    strHasTtl (layout encoding freq expireAt key bytes) = expireAt.isSome :=
  flagsByte_hasTtl small

theorem drop_strKeylenOffset (small : freq ≤ 3) : (layout encoding freq expireAt key bytes).drop
        (strKeylenOffset (layout encoding freq expireAt key bytes)) =
      leBytes keylenLen key.length ++ key ++ bytes := by
  unfold strKeylenOffset
  rw [strHasTtl_layout small]
  cases expireAt with
  | none => rfl
  | some deadline =>
    have skipped : (leBytes ttlLen deadline ++ leBytes keylenLen key.length ++ key ++ bytes).drop
        ttlLen = leBytes keylenLen key.length ++ key ++ bytes := by
      rw [append_assoc, append_assoc, drop_left' (length_leBytes _ _), append_assoc]
    exact skipped

/-- A slice is what lies behind its offset, cut to its length. -/
theorem slice_of_drop (behind : blob.drop offset = front ++ back) (inside : offset ≤ blob.length) :
    slice blob offset front.length = some front := by
  have length := congrArg List.length behind
  rw [length_drop, length_append] at length
  rw [slice, if_pos (by omega), behind, take_left' rfl]

theorem strKeylenOffset_le (small : freq ≤ 3) : strKeylenOffset (layout encoding freq expireAt key bytes) ≤
      (layout encoding freq expireAt key bytes).length := by
  unfold strKeylenOffset
  rw [strHasTtl_layout small]
  cases expireAt with
  | none => simp [layout, headerLen]
  | some deadline => simp [layout, headerLen, ttlLen]

theorem strKeyLen_layout (small : freq ≤ 3) (short : key.length < 2 ^ 32) :
    strKeyLen (layout encoding freq expireAt key bytes) = key.length := by
  have behind : (layout encoding freq expireAt key bytes).drop
      (strKeylenOffset (layout encoding freq expireAt key bytes)) =
        leBytes keylenLen key.length ++ (key ++ bytes) := by
    rw [drop_strKeylenOffset small, append_assoc]
  have cut := slice_of_drop behind (strKeylenOffset_le small)
  rw [length_leBytes] at cut
  rw [strKeyLen, cut, Option.map_some, Option.getD_some, leValue_leBytes (by simpa [keylenLen] using short)]

theorem drop_strKeyOffset (small : freq ≤ 3) : (layout encoding freq expireAt key bytes).drop
        (strKeyOffset (layout encoding freq expireAt key bytes)) = key ++ bytes := by
  rw [strKeyOffset, ← drop_drop, drop_strKeylenOffset small, append_assoc, drop_left' (length_leBytes _ _)]

private theorem strKeyOffset_le (small : freq ≤ 3) : strKeyOffset (layout encoding freq expireAt key bytes) ≤
      (layout encoding freq expireAt key bytes).length := by
  have inside := @strKeylenOffset_le encoding freq expireAt key bytes small
  have behind := congrArg List.length (@drop_strKeylenOffset encoding freq expireAt key bytes small)
  simp only [length_drop, length_append, length_leBytes] at behind
  unfold strKeyOffset
  omega

end Layout

namespace Entry

variable {entry : Entry}

theorem key_pack (fits : entry.Fits) : entry.pack.key = entry.key := by
  obtain ⟨key, value, expireAt, freq⟩ := entry
  cases value with
  | coll value => rfl
  | str encoding bytes =>
    simp only [pack, Packed.key]
    rw [strKeyLen_layout fits.freq fits.short,
      slice_of_drop (drop_strKeyOffset fits.freq) (strKeyOffset_le fits.freq), Option.getD_some]

theorem strValueBytes_pack (fits : entry.Fits) {encoding : Encoding} {bytes : Bytes}
    (held : entry.value = .str encoding bytes) : entry.pack.strValueBytes = bytes := by
  simp only [pack, held, Packed.strValueBytes]
  rw [strKeyLen_layout fits.freq fits.short, ← drop_drop, drop_strKeyOffset fits.freq, drop_left' rfl]

private theorem dataType_pack : entry.pack.dataType = entry.dataType := by
  obtain ⟨key, value, expireAt, freq⟩ := entry
  cases value with
  | coll value => rfl
  | str encoding bytes => rfl

private theorem encoding_pack : entry.pack.encoding = entry.encoding := by
  obtain ⟨key, value, expireAt, freq⟩ := entry
  cases value with
  | coll value => rfl
  | str encoding bytes => exact encodingFromU8_encodingToU8

theorem expireAt_pack (fits : entry.Fits) : entry.pack.expireAt = entry.expireAt := by
  obtain ⟨key, value, expireAt, freq⟩ := entry
  cases value with
  | coll value => rfl
  | str encoding bytes =>
    simp only [pack, Packed.expireAt]
    rw [strHasTtl_layout fits.freq]
    cases expireAt with
    | none => rfl
    | some deadline =>
      have behind : (layout encoding freq (some deadline) key bytes).drop headerLen =
          leBytes ttlLen deadline ++ (leBytes keylenLen key.length ++ key ++ bytes) := by
        simp [layout, headerLen]
      have cut := slice_of_drop behind (by simp [layout, headerLen])
      rw [length_leBytes] at cut
      rw [Option.isSome_some, if_pos rfl, cut, Option.map_some,
        leValue_leBytes (by simpa [ttlLen] using fits.deadline deadline rfl)]

theorem freq_pack (fits : entry.Fits) : entry.pack.freq = entry.freq := by
  obtain ⟨key, value, expireAt, freq⟩ := entry
  cases value with
  | coll value => exact Nat.mod_eq_of_lt (Nat.lt_succ_of_le fits.freq)
  | str encoding bytes => exact flagsByte_freq fits.freq

theorem Fits.reads (fits : Fits ⟨name, .str form bytes, due, held⟩) :
    let packed := Packed.str (layout form held due name bytes)
    packed.key = name ∧ packed.strValueBytes = bytes ∧ packed.dataType = .string ∧
      packed.encoding = form ∧ packed.expireAt = due ∧ packed.freq = held :=
  ⟨key_pack fits, strValueBytes_pack fits rfl, rfl, encodingFromU8_encodingToU8,
    expireAt_pack fits, freq_pack fits⟩

theorem setFreq_pack (fits : entry.Fits) (freq : ℕ) :
    entry.pack.setFreq freq = (entry.setFreq freq).pack := by
  obtain ⟨key, value, expireAt, held⟩ := entry
  cases value with
  | coll value => rfl
  | str encoding bytes =>
    simp only [pack, Packed.setFreq, strFlags_layout, flagsByte_setFreq _ fits.freq]
    rfl

theorem build_eq_layout (encoding : Encoding) (expireAt : Option ℕ) {key : Bytes} (bytes : Bytes)
    (short : key.length < 2 ^ 32) : buildStrBlobBytes .string encoding expireAt key bytes =
      layout encoding 0 expireAt key bytes := by
  have whole : min key.length (2 ^ 32 - 1) = key.length := by omega
  have flags : flagsByte expireAt.isSome 0 = if expireAt.isSome then flagHasTtl else 0 := by
    cases expireAt.isSome <;> decide
  unfold buildStrBlobBytes layout
  rw [whole, flags]

theorem setFreq_build (key : Bytes) (encoding : Encoding) (bytes : Bytes) (expireAt : Option ℕ)
    (short : key.length < 2 ^ 32) {freq : ℕ} (small : freq ≤ 3) :
    Packed.setFreq freq (.str (buildStrBlobBytes .string encoding expireAt key bytes)) =
      pack { key, value := .str encoding bytes, expireAt, freq } := by
  have clamped : min freq maxFreq = freq := min_eq_left small
  have written := @flagsByte_setFreq 0 expireAt.isSome (by decide) freq
  rw [clamped] at written
  rw [build_eq_layout encoding expireAt bytes short]
  simp only [Packed.setFreq, strFlags_layout, clamped, written]
  rfl

theorem setExpireAt_pack (fits : entry.Fits) (deadline : Option ℕ) :
    entry.pack.setExpireAt deadline = (entry.setExpireAt deadline).pack := by
  obtain ⟨name, value, expireAt, held⟩ := entry
  cases value with
  | coll value => rfl
  | str encoding bytes =>
    obtain ⟨key, valueBytes, dataType, encoded, -, freq⟩ := fits.reads
    have hasTtl : strHasTtl (layout encoding held expireAt name bytes) = expireAt.isSome :=
      strHasTtl_layout fits.freq
    have rebuilt := setFreq_build name encoding bytes deadline fits.short fits.freq
    simp only [pack, Packed.setExpireAt, hasTtl, key, freq, dataType, encoded, valueBytes]
    cases expireAt with
    | none =>
      cases deadline with
      | none => rfl
      | some deadline => exact rebuilt
    | some old =>
      cases deadline with
      | none => exact rebuilt
      | some deadline => simp [setExpireAt, layout, headerLen, ttlLen]

theorem rekey_pack (fits : entry.Fits) (short : newKey.length < 2 ^ 32) :
    entry.pack.rekey newKey = (entry.rekey newKey).pack := by
  obtain ⟨name, value, deadline, held⟩ := entry
  cases value with
  | coll value => rfl
  | str encoding bytes =>
    obtain ⟨-, valueBytes, dataType, encoded, expireAt, freq⟩ := fits.reads
    simp only [pack, Packed.rekey, expireAt, freq, dataType, encoded, valueBytes]
    exact setFreq_build newKey encoding bytes deadline short fits.freq

theorem toKvobj_pack (fits : entry.Fits) : entry.pack.toKvobj = entry.toKvobj := by
  obtain ⟨name, value, deadline, held⟩ := entry
  cases value with
  | coll value => rfl
  | str encoding bytes =>
    obtain ⟨key, valueBytes, dataType, encoded, expireAt, -⟩ := fits.reads
    simp only [pack, Packed.toKvobj, key, expireAt, dataType, encoded, valueBytes]
    cases encoding <;> rfl

theorem fromNewOwned_pack {key : Bytes} (value : NewValueOwned) (expireAt : Option ℕ)
    (thresholds : EncodingThresholds) (short : key.length < 2 ^ 32) :
    Packed.fromNewOwned key value expireAt thresholds =
      (fromNewOwned key value expireAt thresholds).pack := by
  unfold Packed.fromNewOwned fromNewOwned pack
  cases Value.ofNew thresholds value with
  | str encoding bytes => exact congrArg Packed.str (build_eq_layout encoding expireAt bytes short)
  | coll value => rfl

theorem fromKvobj_pack (short : object.key.length < 2 ^ 32)
    (typed : ∀ bytes, object.value = .inline bytes ∨ object.value = .raw bytes →
      object.dataType = .string) : Packed.fromKvobj object = (fromKvobj object).pack := by
  obtain ⟨dataType, encoding, key, value, expireAt⟩ := object
  cases value with
  | int number => exact congrArg Packed.str (build_eq_layout .int expireAt _ short)
  | inline bytes =>
    cases typed bytes (.inl rfl)
    exact congrArg Packed.str (build_eq_layout encoding expireAt bytes short)
  | raw bytes =>
    cases typed bytes (.inr rfl)
    exact congrArg Packed.str (build_eq_layout encoding expireAt bytes short)
  | coll value => rfl

end Entry

namespace Packed

def bumpFreq (packed : Packed) : Packed := packed.setFreq (min (packed.freq + 1) maxFreq)

def decFreq (packed : Packed) : Packed := packed.setFreq (packed.freq - 1)

/-- The bump through a shared reference patches the byte of the flags itself. -/
def bumpFreqShared : Packed → Packed
  | .str blob =>
    let next := min ((strFlags blob >>> freqShift &&& freqMask) + 1) (UInt8.ofNat maxFreq)
    .str (blob.set 2 (strFlags blob &&& ~~~(freqMask <<< freqShift) ||| next <<< freqShift))
  | .coll evictionRank expireAt key value =>
    .coll (min (evictionRank % 4 + 1) maxFreq) expireAt key value

/-- A change that leaves the key and the value. -/
inductive Update where
  | setExpireAt (deadline : Option UInt64)
  | setFreq (freq : UInt8)
  | bumpFreq
  | bumpFreqShared
  | decFreq
  | rekey (key : Bytes)

def update (packed : Packed) : Update → Packed
  | .setExpireAt deadline => packed.setExpireAt (deadline.map UInt64.toNat)
  | .setFreq freq => packed.setFreq freq.toNat
  | .bumpFreq => packed.bumpFreq
  | .bumpFreqShared => packed.bumpFreqShared
  | .decFreq => packed.decFreq
  | .rekey key => packed.rekey key

/-- `alloc_str_blob` panics when the length of the blob and its prefix does not fit the prefix. -/
def alloc : Packed → Option Packed
  | .str blob => if 4 + blob.length < 2 ^ 32 then some (.str blob) else none
  | packed => some packed

/-- A blob that is patched in place keeps its length, so that the check passes again. -/
def run (updates : List Update) (packed : Packed) : Option Packed :=
  updates.foldlM (fun packed update => (packed.update update).alloc) packed

end Packed

namespace Entry

def update (entry : Entry) : Packed.Update → Entry
  | .setExpireAt deadline => entry.setExpireAt (deadline.map UInt64.toNat)
  | .setFreq freq => { entry with freq := min freq.toNat 3 }
  | .bumpFreq | .bumpFreqShared => { entry with freq := min (entry.freq + 1) 3 }
  | .decFreq => { entry with freq := entry.freq - 1 }
  | .rekey key => entry.rekey key

/-- The bytes of a string entry with the length prefix in front of it. -/
def blobLen (entry : Entry) : ℕ :=
  4 + headerLen + (if entry.expireAt.isSome then ttlLen else 0) + keylenLen + entry.key.length +
    entry.value.logicalLen

/-- What is read of a packed entry is what the record holds, and the value starts behind the
flags. -/
structure Agrees (entry : Entry) (packed : Packed) : Prop where
  key : packed.key = entry.key
  value : ∀ encoding bytes, entry.value = .str encoding bytes → packed.strValueBytes = bytes
  dataType : packed.dataType = entry.dataType
  encoding : packed.encoding = entry.encoding
  expireAt : packed.expireAt = entry.expireAt
  freq : packed.freq = entry.freq ∧ entry.freq ≤ 3
  apart : ∀ blob, packed = .str blob → 2 < strKeyOffset blob + strKeyLen blob

variable {entry : Entry} {encoding : Encoding} {bytes : Bytes} {step : Packed.Update}

theorem Fits.agrees (fits : entry.Fits) : entry.Agrees entry.pack where
  key := key_pack fits
  value _ _ held := strValueBytes_pack fits held
  dataType := dataType_pack
  encoding := encoding_pack
  expireAt := expireAt_pack fits
  freq := ⟨freq_pack fits, fits.freq⟩
  apart blob _ := by
    unfold strKeyOffset strKeylenOffset headerLen
    split_ifs <;> omega

private theorem bumpFreqShared_pack (fits : entry.Fits) :
    entry.pack.bumpFreqShared = (entry.update .bumpFreqShared).pack := by
  obtain ⟨key, value, expireAt, freq⟩ := entry
  cases value with
  | coll value =>
    have whole : freq % 4 = freq := Nat.mod_eq_of_lt (Nat.lt_succ_of_le fits.freq)
    simp only [pack, Packed.bumpFreqShared, whole]
    rfl
  | str encoding bytes =>
    simp only [pack, Packed.bumpFreqShared, strFlags_layout, flagsByte_bump fits.freq]
    rfl

theorem update_pack (fits : entry.Fits) (short : ∀ key, step = .rekey key → key.length < 2 ^ 32) :
    entry.pack.update step = (entry.update step).pack ∧ (entry.update step).Fits := by
  have freq := freq_pack fits
  have set := setFreq_pack fits
  cases step with
  | setExpireAt deadline =>
    refine ⟨setExpireAt_pack fits _, fits.short, ?_, fits.freq⟩
    rintro _ given
    obtain ⟨deadline, -, rfl⟩ := Option.map_eq_some_iff.mp given
    exact deadline.toNat_lt
  | setFreq freq => exact ⟨set _, fits.short, fits.deadline, min_le_right _ _⟩
  | bumpFreq =>
    refine ⟨?_, fits.short, fits.deadline, min_le_right _ _⟩
    simp [Packed.update, Packed.bumpFreq, set, freq, update, setFreq, maxFreq]
  | bumpFreqShared =>
    exact ⟨bumpFreqShared_pack fits, fits.short, fits.deadline, min_le_right _ _⟩
  | decFreq =>
    have small : entry.freq - 1 ≤ 3 := (Nat.sub_le _ _).trans fits.freq
    refine ⟨?_, fits.short, fits.deadline, small⟩
    simp [Packed.update, Packed.decFreq, set, freq, update, setFreq, small]
  | rekey key => exact ⟨rekey_pack fits (short key rfl), short key rfl, fits.deadline, fits.freq⟩

theorem alloc_pack (held : entry.value = .str encoding bytes) :
    entry.pack.alloc = if entry.blobLen < 2 ^ 32 then some entry.pack else none := by
  have length : 4 + (layout encoding entry.freq entry.expireAt entry.key bytes).length =
      entry.blobLen := by
    cases deadline : entry.expireAt <;>
      simp [layout, blobLen, held, deadline, Value.logicalLen, headerLen, ttlLen, keylenLen] <;> omega
  simp only [pack, held, Packed.alloc, length]

/-- An update comes to what the record becomes, or to a panic if its blob is too long. -/
private theorem alloc_update (fits : entry.Fits) (held : entry.value = .str encoding bytes)
    (step : Packed.Update) :
    (entry.pack.update step).alloc =
      if (entry.update step).blobLen < 2 ^ 32 then some (entry.update step).pack else none := by
  by_cases short : ∀ key, step = .rekey key → key.length < 2 ^ 32
  · rw [(update_pack fits short).1]
    exact alloc_pack (by cases step <;> exact held)
  push Not at short
  obtain ⟨key, rfl, long⟩ := short
  have tooLong : ¬ (entry.update (.rekey key)).blobLen < 2 ^ 32 := by
    simp only [update, rekey, blobLen]
    omega
  rw [if_neg tooLong]
  obtain ⟨name, value, expireAt, freq⟩ := entry
  subst held
  refine if_neg ?_
  simp only [length_set, buildStrBlobBytes, length_cons, length_append]
  omega

/-- What becomes of a packed entry under updates: it is read as the record is, or an update called
for a blob of 4 GiB. -/
def Outcome (entry : Entry) (updates : List Packed.Update) : Option Packed → Prop
  | some packed => (updates.foldl update entry).Agrees packed
  | none => ∃ front, front <+: updates ∧ 2 ^ 32 ≤ (front.foldl update entry).blobLen

private theorem outcome_run (fits : entry.Fits) (held : entry.value = .str encoding bytes)
    (updates : List Packed.Update) : entry.Outcome updates (entry.pack.run updates) := by
  induction updates generalizing entry with
  | nil => exact fits.agrees
  | cons step updates ih =>
    simp only [Packed.run, foldlM_cons, alloc_update fits held]
    split_ifs with small
    · have short : ∀ key, step = .rekey key → key.length < 2 ^ 32 := by
        rintro key rfl
        simp only [update, rekey, blobLen] at small
        omega
      have next := ih (update_pack fits short).2 (by cases step <;> exact held)
      change Outcome entry (step :: updates) ((entry.update step).pack.run updates)
      cases ran : (entry.update step).pack.run updates with
      | some packed =>
        rw [ran] at next
        exact next
      | none =>
        rw [ran] at next
        obtain ⟨front, isPrefix, long⟩ := next
        exact ⟨step :: front, (prefix_cons_inj step).mpr isPrefix, long⟩
    · exact ⟨[step], ⟨updates, rfl⟩, not_lt.mp small⟩

end Entry

/-- A string entry, built and updated in any way. -/
theorem outcome_updates (encoding : Encoding) (key bytes : Bytes) (expireAt : Option UInt64)
    (updates : List Packed.Update) :
    Entry.Outcome { key, value := .str encoding bytes, expireAt := expireAt.map UInt64.toNat } updates
      ((Packed.alloc (.str (buildStrBlobBytes .string encoding (expireAt.map UInt64.toNat) key
        bytes))).bind (Packed.run updates)) := by
  generalize same : expireAt.map UInt64.toNat = deadline
  let entry : Entry := { key, value := .str encoding bytes, expireAt := deadline }
  by_cases short : key.length < 2 ^ 32
  · have made : Packed.alloc (.str (layout encoding 0 deadline key bytes)) =
        if entry.blobLen < 2 ^ 32 then some entry.pack else none :=
      @Entry.alloc_pack entry encoding bytes rfl
    rw [Entry.build_eq_layout encoding _ bytes short, made]
    split_ifs with small
    · refine Entry.outcome_run ⟨short, ?_, Nat.zero_le _⟩ rfl updates
      rintro _ given
      obtain ⟨deadline, -, rfl⟩ := Option.map_eq_some_iff.mp (same.trans given)
      exact deadline.toNat_lt
    · exact ⟨[], nil_prefix, not_lt.mp small⟩
  · rw [Packed.alloc, if_neg]
    · refine ⟨[], List.nil_prefix, ?_⟩
      simp only [foldl_nil, Entry.blobLen]
      omega
    · simp only [buildStrBlobBytes, length_cons, length_append]
      omega

end IronCache.Store
