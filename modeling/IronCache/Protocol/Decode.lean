import IronCache.Lib.Incremental
import IronCache.Protocol.Value

/-!
# Requests

The request decoder of `ironcache-protocol/src/decode.rs`, as parsers that hand on the bytes behind
what they took.
-/

namespace IronCache.Protocol

open Incremental
open Parser

structure Limits where
  maxMultibulk : ℤ
  maxBulkLen : ℤ
  maxInlineLen : ℕ
  multibulkFits : maxMultibulk < 2 ^ 63 := by decide
  bulkFits : maxBulkLen < 2 ^ 63 := by decide

def Limits.default : Limits where
  maxMultibulk := 1024 * 1024
  maxBulkLen := 512 * 1024 * 1024
  maxInlineLen := 64 * 1024

abbrev Request := List Bytes

/-- Why a buffer is given up: a protocol error, or an arithmetic overflow, which aborts. -/
inductive Stop where
  | error (reply : ErrorReply)
  | overflow
deriving DecidableEq

inductive DecodeOutcome where
  | complete (request : Request) (consumed : ℕ)
  | incomplete
  | error (reply : ErrorReply)
  | abort
deriving DecidableEq

def protocolError (detail : String) : Stop := .error (.protocol (utf8 detail))

def parseDigits (digits : Bytes) : Option ℤ :=
  if digits = [] then none else (Decimal.parseFrom (2 ^ 63) 0 digits).map Int.ofNat

/-- A signed decimal number that fits 64 bits. -/
def parseI64 : Bytes → Option ℤ
  | [] => none
  | first :: others =>
    if first = 45 then (parseDigits others).map (- ·)
    else if first = 43 then parseDigits others
    else parseDigits (first :: others)

variable (limits : Limits)

/-- The length of a bulk string, from its `$` to the end of its header line. -/
def bulkHeader (unexpected : UInt8 → Stop) : Parser Stop ℕ := do
  let marker ← byte
  if marker ≠ 36 then fail (unexpected marker)
  else
    let header ← line
    match parseI64 header with
    | none => fail (protocolError "invalid bulk length")
    | some length =>
      if length < 0 ∨ limits.maxBulkLen < length then
        fail (protocolError "invalid bulk length")
      else pure length.toNat

def argument : Parser Stop Bytes := do
  let length ← bulkHeader limits fun marker =>
    .error (.protocol (utf8 "expected '$', got '" ++
      String.utf8EncodeChar (Char.ofNat marker.toNat) ++ utf8 "'"))
  let payload ← take length
  let ending ← take 2
  if ending ≠ [13, 10] then fail (protocolError "expected CRLF after bulk payload")
  else pure payload

/-- What follows the `*` of a multibulk. -/
def multibulkBody : Parser Stop (Option Request) := do
  let header ← line
  match parseI64 header with
  | none => fail (protocolError "invalid multibulk length")
  | some count =>
    if limits.maxMultibulk < count then fail (protocolError "invalid multibulk length")
    else if count ≤ 0 then pure none
    else
      let args ← (argument limits).times count.toNat
      pure (some args)

/-- The request of a multibulk; one without arguments is skipped. -/
def decodeMultibulk : Parser Stop (Option Request) := do
  let _ ← byte
  multibulkBody limits

/-- A key or a value of an attribute. The two bytes behind the payload are not looked at. -/
def attributeElement : Parser Stop (Bytes × Bytes) := do
  let length ← bulkHeader limits fun _ => protocolError "invalid attribute element"
  let payload ← take length
  let ending ← take 2
  pure (payload, ending)

/-- What follows the `|` of an attribute. -/
def attributeBody : Parser Stop (Option Request) := do
  let header ← line
  match parseI64 header with
  | none => fail (protocolError "invalid attribute length")
  | some pairs =>
    if pairs < 0 then fail (protocolError "invalid attribute length")
    else if limits.maxMultibulk < pairs then
      fail (protocolError "invalid attribute length")
    else if 2 ^ 63 ≤ pairs * 2 then fail .overflow
    else
      let _ ← (attributeElement limits).times (pairs * 2).toNat
      pure none

def decodeAndSkipAttribute : Parser Stop (Option Request) := do
  let _ ← byte
  attributeBody limits

/-- The length of a line without and with its end, which is CR LF or LF alone. -/
def findCrlfOrLf (input : Bytes) : Option (ℕ × ℕ) :=
  (input.findIdx? (· == 10)).map fun lf =>
    if 0 < lf ∧ input[lf - 1]? = some 13 then (lf - 1, lf + 1) else (lf, lf + 1)

def isBlank (byte : UInt8) : Bool := byte = 32 || byte = 9

/-- Where the splitting of an inline line stands. -/
inductive SplitMode where
  | between
  | token
  | doubleQuoted
  | singleQuoted

def unbalancedQuotes : ErrorReply := .protocol (utf8 "unbalanced quotes in request")

/-- Splits the rest of a line, with the bytes of the argument that was begun. -/
def splitInlineFrom : SplitMode → Bytes → Bytes → Except ErrorReply (List Bytes)
  | .between, _, [] => .ok []
  | .between, _, byte :: rest =>
    if isBlank byte then splitInlineFrom .between [] rest
    else if byte = 34 then splitInlineFrom .doubleQuoted [] rest
    else if byte = 39 then splitInlineFrom .singleQuoted [] rest
    else splitInlineFrom .token [byte] rest
  | .token, current, [] => .ok [current]
  | .token, current, byte :: rest =>
    if isBlank byte then (splitInlineFrom .between [] rest).map (current :: ·)
    else if byte = 34 then splitInlineFrom .doubleQuoted current rest
    else if byte = 39 then splitInlineFrom .singleQuoted current rest
    else splitInlineFrom .token (current ++ [byte]) rest
  | .doubleQuoted, _, [] => .error unbalancedQuotes
  | .doubleQuoted, current, [byte] =>
    if byte = 34 then .ok [current] else .error unbalancedQuotes
  | .doubleQuoted, current, byte :: next :: rest =>
    if byte = 92 then splitInlineFrom .doubleQuoted (current ++ [next]) rest
    else if byte = 34 then
      if isBlank next then splitInlineFrom .token current (next :: rest)
      else .error unbalancedQuotes
    else splitInlineFrom .doubleQuoted (current ++ [byte]) (next :: rest)
  | .singleQuoted, _, [] => .error unbalancedQuotes
  | .singleQuoted, current, byte :: rest =>
    if byte = 39 then
      if rest.head?.all isBlank then splitInlineFrom .token current rest
      else .error unbalancedQuotes
    else splitInlineFrom .singleQuoted (current ++ [byte]) rest

def splitInline (line : Bytes) : Except ErrorReply (List Bytes) := splitInlineFrom .between [] line

/-- The request of an inline line; a blank line is skipped. -/
def decodeInline : Parser Stop (Option Request) := fun input =>
  match findCrlfOrLf input with
  | none =>
    if limits.maxInlineLen < input.length then .fail (protocolError "too big inline request")
    else .more
  | some (lineEnd, consumed) =>
    if limits.maxInlineLen < lineEnd then .fail (protocolError "too big inline request")
    else match splitInline (input.take lineEnd) with
      | .error reply => .fail (.error reply)
      | .ok [] => .done none (input.drop consumed)
      | .ok (command :: args) => .done (some (command :: args)) (input.drop consumed)

def frameOf (first : UInt8) : Parser Stop (Option Request) :=
  if first = 42 then decodeMultibulk limits
  else if first = 124 then decodeAndSkipAttribute limits
  else decodeInline limits

/-- One turn of the decoder's loop. -/
def decodeFrame : Parser Stop (Option Request) := peek (frameOf limits)

def decode (input : Bytes) : DecodeOutcome :=
  match (decodeFrame limits).skipping input with
  | .done request rest => .complete request (input.length - rest.length)
  | .more => .incomplete
  | .fail (.error reply) => .error reply
  | .fail .overflow => .abort

example : decode .default (utf8 "*2\r\n$3\r\nGET\r\n$1\r\nk\r\n*1\r\n") =
    .complete [utf8 "GET", utf8 "k"] 20 := by decide +kernel

example : decode .default (utf8 " SET \"a \\\"b\" 'c'\r\n") =
    .complete [utf8 "SET", utf8 "a \"b", utf8 "c"] 18 := by decide +kernel

end IronCache.Protocol
