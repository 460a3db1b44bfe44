import IronCache.Lib.Bytes

/-!
# Hash slots

The slot of a key, from `ironcache-protocol/src/slot.rs`.
-/

namespace IronCache.Protocol

def clusterSlots : ℕ := 16384

def crc16Step (crc : UInt16) : UInt16 :=
  if crc &&& 0x8000 ≠ 0 then (crc <<< 1) ^^^ 0x1021 else crc <<< 1

def crc16Byte (crc : UInt16) (byte : UInt8) : UInt16 :=
  (List.range 8).foldl (fun crc _ => crc16Step crc) (crc ^^^ (byte.toUInt16 <<< (8 : UInt16)))

def crc16 (data : Bytes) : UInt16 := data.foldl crc16Byte 0

/-- The part of a key between its first opening brace and the next closing one, unless that is
empty. -/
def hashTag (key : Bytes) : Bytes :=
  match key.findIdx? (· == 123) with
  | some brace =>
    let inner := key.drop (brace + 1)
    match inner.findIdx? (· == 125) with
    | some 0 | none => key
    | some length => inner.take length
  | none => key

def keySlot (key : Bytes) : ℕ := (crc16 (hashTag key)).toNat % clusterSlots

theorem keySlot_lt : keySlot key < clusterSlots := Nat.mod_lt _ (by decide)

example : keySlot [102, 111, 111] = 12182 := by decide +kernel

end IronCache.Protocol
