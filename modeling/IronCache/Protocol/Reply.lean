import IronCache.Protocol.Encode

/-!
# Replies as a client reads them

A reader of the two protocol versions, written from the protocol and not from the serialiser.
-/

namespace IronCache.Protocol

open Incremental Store
open Parser
open Decimal

inductive Kind where
  | simple
  | error
  | integer
  | bulk
  | array
  | null
  | double
  | boolean
  | bigNumber
  | bulkError
  | verbatim
  | map
  | set
  | push
deriving DecidableEq

namespace Kind

def marker : Kind → UInt8
  | simple => 43
  | error => 45
  | integer => 58
  | bulk => 36
  | array => 42
  | null => 95
  | double => 44
  | boolean => 35
  | bigNumber => 40
  | bulkError => 33
  | verbatim => 61
  | map => 37
  | set => 126
  | push => 62

def common : List Kind := [simple, error, integer, bulk, array]

def known : ProtoVersion → List Kind
  | .resp2 => common
  | .resp3 => common ++ [null, double, boolean, bigNumber, bulkError, verbatim, map, set, push]

def ofMarker (proto : ProtoVersion) (byte : UInt8) : Option Kind :=
  (known proto).find? (·.marker = byte)

theorem ofMarker_marker (isKnown : kind ∈ known proto) : ofMarker proto kind.marker = some kind := by
  cases proto <;> cases kind <;> first | rfl | (revert isKnown; decide)

end Kind

inductive Reply where
  | text (kind : Kind) (bytes : Bytes)
  | integer (number : ℤ)
  | payload (kind : Kind) (bytes : Bytes)
  | verbatim (format data : Bytes)
  | null (kind : Kind)
  | boolean (flag : Bool)
  | elements (kind : Kind) (items : List Reply)

/-- A line that holds no CR and no LF. -/
def cleanLine : Parser Unit Bytes := do
  let body ← line
  if 13 ∈ body ∨ 10 ∈ body then fail () else pure body

def parseSigned (text : Bytes) : Option ℤ :=
  if text.head? = some 45 then (parse text.tail).map fun number : ℕ => -(number : ℤ)
  else (parse text).map Int.ofNat

/-- So many bytes and the CR LF behind them. -/
def payloadOf (header : Bytes) : Parser Unit Bytes :=
  match parse header with
  | none => fail ()
  | some length => do
      let payload ← take length
      let ending ← take 2
      if ending ≠ [13, 10] then fail () else pure payload

/-- So many elements; a map has two for each of its entries. -/
def elementsOf (kind : Kind) (header : Bytes) (inner : Parser Unit Reply) : Parser Unit Reply :=
  match parse header with
  | none => fail ()
  | some count => do
      let items ← inner.times (if kind = .map then 2 * count else count)
      pure (.elements kind items)

/-- The version before had a null bulk string and a null array instead of a null of its own. -/
def isNullHeader (proto : ProtoVersion) (header : Bytes) : Bool :=
  proto = .resp2 && header = utf8 "-1"

/-- What follows the first byte of a frame. -/
def frameBody (proto : ProtoVersion) (inner : Parser Unit Reply) : Kind → Parser Unit Reply
  | .simple => do
      let text ← cleanLine
      pure (.text .simple text)
  | .error => do
      let text ← cleanLine
      pure (.text .error text)
  | .integer => do
      let text ← cleanLine
      match parseSigned text with
      | none => fail ()
      | some number => pure (.integer number)
  | .bulk => do
      let header ← cleanLine
      if isNullHeader proto header then pure (.null .bulk)
      else
        let payload ← payloadOf header
        pure (.payload .bulk payload)
  | .array => do
      let header ← cleanLine
      if isNullHeader proto header then pure (.null .array) else elementsOf .array header inner
  | .null => do
      let text ← cleanLine
      if text = [] then pure (.null .null) else fail ()
  | .double => do
      let text ← cleanLine
      if isDouble text then pure (.text .double text) else fail ()
  | .boolean => do
      let text ← cleanLine
      if text = utf8 "t" then pure (.boolean true)
      else if text = utf8 "f" then pure (.boolean false)
      else fail ()
  | .bigNumber => do
      let text ← cleanLine
      pure (.text .bigNumber text)
  | .bulkError => do
      let header ← cleanLine
      let payload ← payloadOf header
      pure (.payload .bulkError payload)
  | .verbatim => do
      let header ← cleanLine
      let payload ← payloadOf header
      if payload[3]? = some 58 then pure (.verbatim (payload.take 3) (payload.drop 4))
      else fail ()
  | .map => do
      let header ← cleanLine
      elementsOf .map header inner
  | .set => do
      let header ← cleanLine
      elementsOf .set header inner
  | .push => do
      let header ← cleanLine
      elementsOf .push header inner

/-- A frame nested no deeper than a bound. -/
def frame (proto : ProtoVersion) : ℕ → Parser Unit Reply
  | 0 => fun _ => .more
  | depth + 1 => do
      let marker ← byte
      match Kind.ofMarker proto marker with
      | none => fail ()
      | some kind => frameBody proto (frame proto depth) kind

/-- One frame of any depth: every level takes a byte. -/
def readReply (proto : ProtoVersion) : Parser Unit Reply := fun input =>
  frame proto (input.length + 1) input

theorem steady_cleanLine : Steady cleanLine :=
  Steady.line.bind fun _ => .ite _ (.fail _) (.pure _)

private theorem steady_payloadOf : Steady (payloadOf header) := by
  unfold payloadOf
  cases parse header with
  | none => exact .fail _
  | some length =>
    refine (Steady.take length).bind fun payload => (Steady.take 2).bind fun ending => ?_
    exact .ite _ (.fail _) (.pure _)

variable {inner : Parser Unit Reply} {proto : ProtoVersion}

private theorem steady_elementsOf (steady : Steady inner) (kind : Kind) :
    Steady (elementsOf kind header inner) := by
  unfold elementsOf
  cases parse header with
  | none => exact .fail _
  | some count => exact (steady.times _).bind fun items => .pure _

private theorem steady_frameBody (steady : Steady inner) (kind : Kind) :
    Steady (frameBody proto inner kind) := by
  cases kind with
  | simple | error | bigNumber => exact steady_cleanLine.bind fun text => .pure _
  | integer =>
    refine steady_cleanLine.bind fun text => ?_
    cases parseSigned text with
    | none => exact .fail _
    | some number => exact .pure _
  | bulk =>
    exact steady_cleanLine.bind fun header => .ite _ (.pure _) (steady_payloadOf.bind fun payload => .pure _)
  | array =>
    exact steady_cleanLine.bind fun header => .ite _ (.pure _) (steady_elementsOf steady _)
  | null | double => exact steady_cleanLine.bind fun text => .ite _ (.pure _) (.fail _)
  | boolean =>
    exact steady_cleanLine.bind fun text => .ite _ (.pure _) (.ite _ (.pure _) (.fail _))
  | bulkError =>
    exact steady_cleanLine.bind fun header =>
      steady_payloadOf.bind fun payload => .pure _
  | verbatim =>
    exact steady_cleanLine.bind fun header =>
      steady_payloadOf.bind fun payload => .ite _ (.pure _) (.fail _)
  | map | set | push => exact steady_cleanLine.bind fun header => steady_elementsOf steady _

theorem steady_frame : Steady (frame proto depth) := by
  induction depth with
  | zero => exact ⟨(fun _ _ _ taken => by cases taken), fun _ _ failed => by cases failed⟩
  | succ depth ih =>
    refine Steady.byte.bind fun marker => ?_
    cases Kind.ofMarker proto marker with
    | none => exact .fail _
    | some kind => exact steady_frameBody ih kind

private theorem agree_frameBody (isLocal : Local other) (agree : AgreeBelow bound inner other) (kind : Kind) :
    AgreeBelow bound (frameBody proto inner kind) (frameBody proto other kind) := by
  have items (kind : Kind) (header : Bytes) :
      AgreeBelow bound (elementsOf kind header inner) (elementsOf kind header other) := by
    unfold elementsOf
    cases parse header with
    | none => exact .refl _
    | some count => exact (agree.times isLocal _).bind_first
  cases kind with
  | array =>
    exact .bind_next steady_cleanLine.isLocal fun header => .ite _ (.refl _) (items .array header)
  | map => exact .bind_next steady_cleanLine.isLocal fun header => items .map header
  | set => exact .bind_next steady_cleanLine.isLocal fun header => items .set header
  | push => exact .bind_next steady_cleanLine.isLocal fun header => items .push header
  | _ => exact .refl _

private theorem agree_frame (depth deeper : ℕ) :
    AgreeBelow (min depth deeper) (frame proto depth) (frame proto deeper) := by
  induction depth generalizing deeper with
  | zero =>
    intro input short
    simp at short
  | succ depth ih =>
    cases deeper with
    | zero =>
      intro input short
      simp at short
    | succ deeper =>
      rw [Nat.add_min_add_right]
      refine .byte_bind fun marker => ?_
      cases Kind.ofMarker proto marker with
      | none => exact .refl _
      | some kind => exact agree_frameBody steady_frame.isLocal (ih deeper) kind

theorem readReply_eq (deep : input.length < depth) : readReply proto input = frame proto depth input :=
  agree_frame (input.length + 1) depth input (by omega)

end IronCache.Protocol
