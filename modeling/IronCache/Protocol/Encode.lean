import IronCache.Lib.Incremental
import IronCache.Protocol.Double

/-!
# Written replies

The reply serialiser of `ironcache-protocol/src/encode.rs`, and the frames a client reads.
-/

namespace IronCache.Protocol

open Incremental Store

def i64ToStr (number : ℤ) : Bytes :=
  if number < 0 then 45 :: Decimal.print number.natAbs else Decimal.print number.natAbs

def sanitizeLine (text : Bytes) : Bytes :=
  text.map fun byte => if byte = 13 ∨ byte = 10 then 32 else byte

def textLine (marker : UInt8) (text : Bytes) : Bytes := marker :: (text ++ [13, 10])

def countLine (marker : UInt8) (count : ℕ) : Bytes := textLine marker (i64ToStr count)

def encodeErrorLine (reply : ErrorReply) : Bytes := sanitizeLine reply.line ++ [13, 10]

def encodeBulkRef (data : Bytes) : Bytes := countLine 36 data.length ++ (data ++ [13, 10])

def nullBulk : Bytes := utf8 "$-1\r\n"

def nullArray : ProtoVersion → Bytes
  | .resp3 => utf8 "_\r\n"
  | .resp2 => utf8 "*-1\r\n"

mutual

/-- The bytes of a reply; `ryu` prints the digits of doubles. -/
def encode (ryu : F64 → Bytes) (proto : ProtoVersion) : Value → Bytes
  | .simpleString text => textLine 43 (sanitizeLine text)
  | .error reply => encodeErrorLine reply
  | .integer number => textLine 58 (i64ToStr number.toInt)
  | .bulkString (some data) => encodeBulkRef data
  | .bulkString none => nullBulk
  | .array (some items) => countLine 42 items.length ++ encodeAll ryu proto items
  | .array none => nullArray proto
  | .null =>
    match proto with
    | .resp3 => utf8 "_\r\n"
    | .resp2 => nullBulk
  | .double number =>
    match proto with
    | .resp3 => textLine 44 (formatDouble ryu number)
    | .resp2 => encodeBulkRef (formatDouble ryu number)
  | .boolean flag =>
    match proto with
    | .resp3 => if flag then utf8 "#t\r\n" else utf8 "#f\r\n"
    | .resp2 => textLine 58 (i64ToStr (if flag then 1 else 0))
  | .bigNumber text =>
    match proto with
    | .resp3 => textLine 40 (sanitizeLine text)
    | .resp2 => encodeBulkRef text
  | .bulkError reply =>
    match proto with
    | .resp3 => countLine 33 reply.line.tail.length ++ (reply.line.tail ++ [13, 10])
    | .resp2 => encodeErrorLine reply
  | .verbatimString format data =>
    match proto with
    | .resp3 => countLine 61 (4 + data.length) ++ (format.toList ++ 58 :: data ++ [13, 10])
    | .resp2 => encodeBulkRef data
  | .map pairs =>
    match proto with
    | .resp3 => countLine 37 pairs.length ++ encodePairs ryu proto [] pairs
    | .resp2 => countLine 42 (pairs.length * 2) ++ encodePairs ryu proto [] pairs
  | .pairs pairs =>
    match proto with
    | .resp3 => countLine 42 pairs.length ++ encodePairs ryu proto (utf8 "*2\r\n") pairs
    | .resp2 => countLine 42 (pairs.length * 2) ++ encodePairs ryu proto [] pairs
  | .set items =>
    countLine (if proto = .resp3 then 126 else 42) items.length ++ encodeAll ryu proto items
  | .push items =>
    countLine (if proto = .resp3 then 62 else 42) items.length ++ encodeAll ryu proto items

def encodeAll (ryu : F64 → Bytes) (proto : ProtoVersion) : List Value → Bytes
  | [] => []
  | item :: items => encode ryu proto item ++ encodeAll ryu proto items

/-- Pairs one after the other, each behind the same bytes. -/
def encodePairs (ryu : F64 → Bytes) (proto : ProtoVersion) (lead : Bytes) : List (Value × Value) → Bytes
  | [] => []
  | (first, second) :: pairs =>
    lead ++ encode ryu proto first ++ encode ryu proto second ++ encodePairs ryu proto lead pairs

end

example : encode (fun _ => []) .resp3
    (.array (some [.simpleString (utf8 "a\r\nb"), .boolean true, .map [(.null, .integer 7)]])) =
      utf8 "*3\r\n+a  b\r\n#t\r\n%1\r\n_\r\n:7\r\n" := by decide +kernel

end IronCache.Protocol
