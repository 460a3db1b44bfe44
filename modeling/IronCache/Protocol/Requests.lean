import IronCache.Protocol.Grammar

/-!
# Requests of a connection

The decoder against its grammar, and how far its answers depend on the chunks of a connection.
-/

namespace IronCache.Protocol

open Incremental
open List
open Decimal

variable {limits : Limits}

/-- The bytes left behind whole frames stand on the border of the inline limit. -/
def OnEdgeBehind (kind : Bytes → Prop) (limits : Limits) (input : Bytes) : Prop :=
  ∃ frames line, input = frames ++ line ∧ Frames kind frames ∧ OnEdge limits line

def IsFrame (limits : Limits) (frame : Bytes) : Prop :=
  NoOp limits frame ∨ ∃ args, IsRequest limits frame args

variable {input line skipped rest frame : Bytes} {reply : ErrorReply} {consumed : ℕ} {args : Request}

theorem firmAt_nextRequest (offEdge : ¬OnEdgeBehind (NoOp limits) limits input) :
    FirmAt (nextRequest limits) input := by
  intro stop failed later
  rw [nextRequest_eq] at failed ⊢
  obtain ⟨skipped, tail, rfl, isSkipped, tailFailed⟩ :=
    skipping_eq_fail local_decodeFrame advances_decodeFrame failed
  have tailOff : ¬OnEdge limits tail :=
    fun edge => offEdge ⟨skipped, tail, rfl, noOps_of_skipped isSkipped, edge⟩
  rw [append_assoc, isSkipped.skipping_append advances_decodeFrame]
  exact skipping_of_fail (firmAt_decodeFrame tailOff stop tailFailed later)

theorem OnEdge.decodeFrame_eq (edge : OnEdge limits line) (rest : Bytes) :
    decodeFrame limits (line ++ rest) = decodeInline limits (line ++ rest) := by
  obtain ⟨⟨notMultibulk, notAttribute⟩, -, length, -⟩ := edge
  cases line with
  | nil => simp at length
  | cons first others =>
    change frameOf limits first (first :: (others ++ rest)) = _
    rw [frameOf, if_neg (by simpa using notMultibulk), if_neg (by simpa using notAttribute)]
    rfl

theorem OnEdgeBehind.decode_eq (edge : OnEdgeBehind (NoOp limits) limits input) :
    decode limits input = .error (.protocol (utf8 "too big inline request")) := by
  obtain ⟨skipped, line, rfl, noOps, onEdge⟩ := edge
  have failed : decodeFrame limits line = .fail (protocolError "too big inline request") := by
    have inline := onEdge.decodeFrame_eq []
    rw [append_nil] at inline
    rw [inline, decodeInline_of_unbroken onEdge.unbroken, if_pos (by rw [onEdge.length]; omega)]
  have skipping := (skipped_of_noOps noOps).skipping_append advances_decodeFrame line
  simp only [decode, skipping, skipping_of_fail failed]
  rfl

private theorem splitInlineFrom_error (failed : splitInlineFrom mode current line = .error reply) :
    reply = unbalancedQuotes := by
  fun_induction splitInlineFrom mode current line with
  | case7 current byte rest blank ih =>
    cases others : splitInlineFrom .between [] rest with
    | ok args => simp [others, Except.map] at failed
    | error other => exact ih (by simpa [others, Except.map] using failed)
  | _ => simp_all

theorem OnEdgeBehind.decode_line_ne (edge : OnEdgeBehind (NoOp limits) limits input) :
    decode limits (input ++ [10]) ≠ .error (.protocol (utf8 "too big inline request")) := by
  obtain ⟨skipped, line, rfl, noOps, onEdge⟩ := edge
  have text : (lineText line).length = limits.maxInlineLen := by
    rw [lineText, if_pos onEdge.carriage, length_dropLast, onEdge.length]
    rfl
  have answer := onEdge.decodeFrame_eq [10]
  rw [decodeInline_line onEdge.unbroken, inlineAnswer, if_neg (by omega)] at answer
  have skipping := (skipped_of_noOps noOps).skipping_append advances_decodeFrame (line ++ [10])
  rw [decode, append_assoc, skipping]
  cases split : splitInline (lineText line) with
  | error reply =>
    rw [split] at answer
    rw [skipping_of_fail answer, splitInlineFrom_error split]
    change DecodeOutcome.error unbalancedQuotes ≠ _
    decide +kernel
  | ok args =>
    rw [split] at answer
    cases args with
    | nil =>
      rw [skipping_of_none advances_decodeFrame answer, skipping_of_more rfl]
      simp
    | cons command args =>
      rw [skipping_of_some answer]
      simp

/-- What was answered on the bytes received first stands when more are received. -/
def Settled (limits : Limits) (input : Bytes) : Prop :=
  ∀ later, (∀ request consumed, decode limits input = .complete request consumed →
      decode limits (input ++ later) = .complete request consumed) ∧
    ∀ reply, decode limits input = .error reply → decode limits (input ++ later) = .error reply

private theorem decode_append_of_complete (complete : decode limits input = .complete request consumed) :
    decode limits (input ++ later) = .complete request consumed := by
  obtain ⟨front, rest, rfl, rfl, accepts⟩ := decode_eq_complete_iff.mp complete
  exact decode_eq_complete_iff.mpr ⟨front, rest ++ later, by simp, rfl, accepts⟩

private theorem nextRequest_eq_more_iff :
    nextRequest limits input = .more ↔ decode limits input = .incomplete := by
  unfold nextRequest
  cases decode limits input <;> simp

private theorem nextRequest_eq_error_iff :
    nextRequest limits input = .fail (.error reply) ↔ decode limits input = .error reply := by
  unfold nextRequest
  cases decode limits input <;> simp

private theorem settled_iff : Settled limits input ↔ ¬OnEdgeBehind (NoOp limits) limits input := by
  constructor
  · intro settled edge
    exact edge.decode_line_ne ((settled [10]).2 _ edge.decode_eq)
  · intro offEdge later
    refine ⟨fun request consumed complete => decode_append_of_complete complete, ?_⟩
    intro reply failed
    rw [← nextRequest_eq_error_iff] at failed ⊢
    exact firmAt_nextRequest offEdge _ failed later

/-- A buffer that is incomplete was so from its first byte on. -/
private theorem incomplete_of_isPrefix (incomplete : decode limits input = .incomplete)
    (starts : start <+: input) (offEdge : ¬OnEdgeBehind (NoOp limits) limits start) :
    decode limits start = .incomplete := by
  obtain ⟨later, rfl⟩ := starts
  rw [← nextRequest_eq_more_iff] at incomplete ⊢
  cases answer : nextRequest limits start with
  | more => rfl
  | done request rest =>
    rw [local_nextRequest.append answer later] at incomplete
    cases incomplete
  | fail stop =>
    rw [firmAt_nextRequest offEdge stop answer later] at incomplete
    cases incomplete

private theorem frames_of_taken (taken : Taken (nextRequest limits) bytes requests) :
    Frames (IsFrame limits) bytes := by
  induction taken with
  | nil => exact .nil
  | cons head _ ih =>
    obtain ⟨skipped, frame, rfl, noOps, isRequest⟩ := accepts_nextRequest_iff.mp head
    refine Frames.append (Frames.append (noOps.mono fun _ => .inl) ?_) ih
    rw [← append_nil frame]
    exact .cons (.inr ⟨_, isRequest⟩) .nil

private theorem firmBehind_nextRequest (offEdge : ¬OnEdgeBehind (IsFrame limits) limits received) :
    FirmBehind (nextRequest limits) received := by
  rintro front left requests rfl taken
  refine firmAt_nextRequest ?_
  rintro ⟨skipped, line, rfl, noOps, onEdge⟩
  refine offEdge ⟨front ++ skipped, line, by simp, ?_, onEdge⟩
  exact (frames_of_taken taken).append (noOps.mono fun _ => .inl)

/-- A connection that receives these chunks one after the other. -/
def receive (limits : Limits) (chunks : List Bytes) : Intake Stop Request :=
  chunks.foldl (Intake.feed (nextRequest limits)) .start

private theorem receive_holds
    (offEdge : ∀ count, ¬OnEdgeBehind (IsFrame limits) limits (chunks.take count).flatten) :
    (receive limits chunks).Holds (nextRequest limits) chunks.flatten := by
  have start : (Intake.start : Intake Stop Request).Holds (nextRequest limits) [] :=
    Intake.holds_start rfl
  have run := start.run local_nextRequest advances_nextRequest chunks
    fun count => firmBehind_nextRequest (offEdge count)
  simpa [receive] using run

/-- The decoder's answers do not depend on the chunks the bytes arrive in, exactly as far as no
chunk ends between the CR and the LF of an inline line of the longest length. -/
theorem decode_settled (limits : Limits) :
    (∀ input, Settled limits input ↔ ¬OnEdgeBehind (NoOp limits) limits input) ∧
      (∀ input, decode limits input = .incomplete →
        ((∀ start, start <+: input → decode limits start = .incomplete) ↔
          ∀ start, start <+: input → ¬OnEdgeBehind (NoOp limits) limits start)) ∧
      ∀ chunks : List Bytes, (∀ count, ¬OnEdgeBehind (IsFrame limits) limits (chunks.take count).flatten) →
          (receive limits chunks).values = (receive limits [chunks.flatten]).values ∧
            (receive limits chunks).error = (receive limits [chunks.flatten]).error := by
  refine ⟨fun input => settled_iff, ?_, ?_⟩
  · intro input incomplete
    constructor
    · intro always start starts edge
      have failed := edge.decode_eq
      rw [always start starts] at failed
      cases failed
    · intro offEdge start starts
      exact incomplete_of_isPrefix incomplete starts (offEdge start starts)
  · intro chunks offEdge
    have whole : (receive limits [chunks.flatten]).Holds (nextRequest limits) chunks.flatten := by
      have held := @receive_holds limits [chunks.flatten] fun count => by
        cases count with
        | zero => simpa using offEdge 0
        | succ count => simpa using offEdge chunks.length
      simpa using held
    exact (receive_holds offEdge).unique whole

def fourBytes : Limits where
  maxMultibulk := 8
  maxBulkLen := 8
  maxInlineLen := 4

/-- The CR of a line of the longest length, received without its LF, makes it too long. -/
theorem not_settled_ping :
    decode fourBytes (utf8 "PING\r") = .error (.protocol (utf8 "too big inline request")) ∧
      decode fourBytes (utf8 "PING\r" ++ utf8 "\n") = .complete [utf8 "PING"] 6 ∧
      ¬Settled fourBytes (utf8 "PING\r") ∧
      (receive fourBytes [utf8 "PING\r", utf8 "\n"]).values = [] ∧
      (receive fourBytes [utf8 "PING\r" ++ utf8 "\n"]).values = [[utf8 "PING"]] := by
  have early : decode fourBytes (utf8 "PING\r") =
      .error (.protocol (utf8 "too big inline request")) := by decide +kernel
  have whole : decode fourBytes (utf8 "PING\r" ++ utf8 "\n") = .complete [utf8 "PING"] 6 := by decide +kernel
  refine ⟨early, whole, ?_, by decide +kernel, by decide +kernel⟩
  intro settled
  have same := (settled (utf8 "\n")).2 _ early
  cases same

def encodeBulk (payload : Bytes) : Bytes :=
  headed 36 (print payload.length) ++ (payload ++ [13, 10])

def encodeCommand (args : Request) : Bytes :=
  headed 42 (print args.length) ++ args.flatMap encodeBulk

/-- The attribute frame of keys with their values. -/
def encodeAttribute (pairs : List (Bytes × Bytes)) : Bytes :=
  headed 124 (print pairs.length) ++ pairs.flatMap fun pair => encodeBulk pair.1 ++ encodeBulk pair.2

theorem parseI64_print (fits : number < 2 ^ 63) : parseI64 (print number) = some (number : ℤ) := by
  obtain ⟨digit, small, rest, printed, -⟩ := head_print number
  have parsed : parseDigits (print number) = some (number : ℤ) := by
    rw [parseDigits, if_neg (print_ne_nil number), parseFrom_print fits]
    rfl
  have notSign : ofDigit digit ≠ 45 ∧ ofDigit digit ≠ 43 := by
    interval_cases digit <;> decide
  rw [printed] at parsed ⊢
  rw [parseI64, if_neg notSign.1, if_neg notSign.2, parsed]

theorem isBulk_encodeBulk (fits : payload.length ≤ limits.maxBulkLen) :
    IsBulk limits (encodeBulk payload) payload [13, 10] := by
  have bound := limits.bulkFits
  exact ⟨⟨_, rfl, parseI64_print (by omega)⟩, fits, rfl⟩

private theorem isMultibulk_encodeCommand (nonempty : args ≠ []) (fits : args.length ≤ limits.maxMultibulk)
    (argsFit : ∀ arg ∈ args, (arg.length : ℤ) ≤ limits.maxBulkLen) :
    IsMultibulk limits (encodeCommand args) args := by
  have bound := limits.multibulkFits
  refine ⟨⟨_, _, rfl, parseI64_print (by omega), ?_⟩, fits, nonempty⟩
  clear nonempty fits bound
  induction args with
  | nil => exact .nil
  | cons arg args ih =>
    refine .cons (isBulk_encodeBulk (argsFit arg (by simp))) (ih ?_)
    exact fun other member => argsFit other (by simp [member])

/-- Keys and values within the limits. -/
structure AttributeFits (limits : Limits) (pairs : List (Bytes × Bytes)) : Prop where
  count : pairs.length ≤ limits.maxMultibulk
  each : ∀ pair ∈ pairs, (pair.1.length : ℤ) ≤ limits.maxBulkLen ∧ (pair.2.length : ℤ) ≤ limits.maxBulkLen
  size : (encodeAttribute pairs).length < 2 ^ 63

private theorem length_encodeBulk_pos (payload : Bytes) : 1 ≤ (encodeBulk payload).length := by
  simp [encodeBulk, headed]

private theorem two_mul_length_le_encodeAttribute (pairs : List (Bytes × Bytes)) :
    2 * pairs.length ≤ (encodeAttribute pairs).length := by
  have body : 2 * pairs.length ≤
      (pairs.flatMap fun pair => encodeBulk pair.1 ++ encodeBulk pair.2).length := by
    induction pairs with
    | nil => simp
    | cons pair pairs ih =>
      have key := length_encodeBulk_pos pair.1
      have value := length_encodeBulk_pos pair.2
      simp only [flatMap_cons, length_append, length_cons] at ih ⊢
      omega
  rw [encodeAttribute, length_append]
  omega

private theorem isAttribute_encodeAttribute (fits : AttributeFits limits pairs) :
    IsAttribute limits (encodeAttribute pairs)
      (pairs.flatMap fun pair => [(pair.1, [13, 10]), (pair.2, [13, 10])]) := by
  have bound := limits.multibulkFits
  have count := fits.count
  have size := fits.size
  have length : (pairs.flatMap fun pair =>
      [(pair.1, ([13, 10] : Bytes)), (pair.2, [13, 10])]).length = 2 * pairs.length := by
    simp [length_flatMap, Nat.mul_comm]
  have small := two_mul_length_le_encodeAttribute pairs
  refine ⟨⟨_, _, pairs.length, rfl, parseI64_print (by omega), length, ?_⟩, by omega, by omega⟩
  have each := fits.each
  clear fits length small bound count size
  induction pairs with
  | nil => exact .nil
  | cons pair pairs ih =>
    have here := each pair (by simp)
    simp only [flatMap_cons, append_assoc, cons_append, nil_append]
    refine .cons (isBulk_encodeBulk here.1) (.cons (isBulk_encodeBulk here.2) (ih ?_))
    exact fun other member => each other (by simp [member])

private theorem decode_encodeCommand {attributes : List (List (Bytes × Bytes))}
    (attributesFit : ∀ pairs ∈ attributes, AttributeFits limits pairs) (nonempty : args ≠ [])
    (fits : args.length ≤ limits.maxMultibulk)
    (argsFit : ∀ arg ∈ args, (arg.length : ℤ) ≤ limits.maxBulkLen) (rest : Bytes) :
    decode limits (attributes.flatMap encodeAttribute ++ encodeCommand args ++ rest) =
      .complete args (attributes.flatMap encodeAttribute ++ encodeCommand args).length := by
  have noOps : NoOps limits (attributes.flatMap encodeAttribute) := by
    induction attributes with
    | nil => exact .nil
    | cons pairs attributes ih =>
      refine .cons (.skippedAttribute _ (isAttribute_encodeAttribute ?_)) (ih ?_)
      · exact attributesFit pairs (by simp)
      · exact fun other member => attributesFit other (by simp [member])
  refine decode_eq_complete_iff.mpr ⟨_, rest, rfl, rfl, ?_⟩
  exact accepts_nextRequest_iff.mpr ⟨_, _, rfl, noOps, .inl (isMultibulk_encodeCommand nonempty fits argsFit)⟩

private theorem consumed_bounds (complete : decode limits input = .complete args consumed) :
    1 ≤ consumed ∧ consumed ≤ input.length := by
  obtain ⟨front, rest, rfl, rfl, accepts⟩ := decode_eq_complete_iff.mp complete
  have shorter := advances_nextRequest (accepts rest)
  simp only [length_append] at shorter ⊢
  omega

/-- A frame without a request whose bulk strings all end in CR LF. -/
def EndedNoOp (limits : Limits) (frame : Bytes) : Prop :=
  NoOp limits frame ∧ ∀ elements, IsAttribute limits frame elements →
    ∀ element ∈ elements, element.2 = [13, 10]

/-- Every attribute in front of the first request has CR LF behind each of its bulk strings. -/
def AttributesEnd (limits : Limits) (input : Bytes) : Prop :=
  ∀ skipped frame rest elements, input = skipped ++ frame ++ rest → NoOps limits skipped →
    IsAttribute limits frame elements → ∀ element ∈ elements, element.2 = [13, 10]

theorem AttributesEnd.frames (noOps : NoOps limits skipped)
    (ended : AttributesEnd limits (skipped ++ rest)) : Frames (EndedNoOp limits) skipped := by
  induction noOps with
  | nil => exact .nil
  | @cons front back head _ ih =>
    refine .cons ⟨head, fun elements isAttribute => ?_⟩ (ih ?_)
    · exact ended [] front (back ++ rest) elements (by simp) .nil isAttribute
    · intro skipped frame others elements split noOps
      refine ended (front ++ skipped) frame others elements ?_ (.cons head noOps)
      rw [append_assoc, split]
      simp

theorem attributesEnd_of_frames (ended : Frames (EndedNoOp limits) skipped)
    (isRequest : IsRequest limits frame args) : AttributesEnd limits (skipped ++ frame ++ rest) := by
  intro front piece others elements split noOps isAttribute
  have request := accepts_frame_iff.mpr
    (show (some args).elim (NoOp limits frame) (IsRequest limits frame) from isRequest)
  have pieceAccepts := (NoOp.skippedAttribute elements isAttribute).accepts_frame
  -- both ways to cut the input take the same frame at each turn
  induction noOps generalizing skipped with
  | nil =>
    cases ended with
    | nil =>
      obtain ⟨-, wrong, -⟩ := request.unique pieceAccepts split
      cases wrong
    | @cons first later head _ =>
      have cut : first ++ (later ++ frame ++ rest) = piece ++ others := by simpa using split
      obtain ⟨rfl, -, -⟩ := head.1.accepts_frame.unique pieceAccepts cut
      exact head.2 elements isAttribute
  | @cons other back otherHead _ ih =>
    cases ended with
    | nil =>
      have cut : frame ++ rest = other ++ (back ++ piece ++ others) := by simpa using split
      obtain ⟨-, wrong, -⟩ := request.unique otherHead.accepts_frame cut
      cases wrong
    | @cons first later head tail =>
      have cut : first ++ (later ++ frame ++ rest) = other ++ (back ++ piece ++ others) := by
        simpa using split
      obtain ⟨-, -, same⟩ := head.1.accepts_frame.unique otherHead.accepts_frame cut
      exact ih tail same

/-- The bytes are frames without a request and then a multibulk, with CR LF behind each bulk
string of them. -/
def WellFormed (limits : Limits) (bytes : Bytes) (args : Request) : Prop :=
  ∃ skipped frame, bytes = skipped ++ frame ∧ Frames (EndedNoOp limits) skipped ∧
    IsMultibulk limits frame args

private theorem wellFormed_iff (noOps : NoOps limits skipped) (isMultibulk : IsMultibulk limits frame args) :
    WellFormed limits (skipped ++ frame) args ↔
      AttributesEnd limits (skipped ++ frame ++ rest) := by
  constructor
  · rintro ⟨others, last, split, ended, isMultibulk⟩
    rw [split]
    exact attributesEnd_of_frames ended (.inl isMultibulk)
  · intro ended
    rw [append_assoc] at ended
    exact ⟨skipped, frame, rfl, ended.frames noOps, isMultibulk⟩

/-- The decoder takes every multibulk that is written within the limits, behind attributes and in
front of anything; what it takes is its grammar; and the multibulks it takes are well formed
exactly when the attributes in front of them are. -/
theorem decode_grammar (limits : Limits) :
    (∀ (attributes : List (List (Bytes × Bytes))) (args : Request) (rest : Bytes),
      (∀ pairs ∈ attributes, AttributeFits limits pairs) → args ≠ [] → args.length ≤ limits.maxMultibulk →
        (∀ arg ∈ args, (arg.length : ℤ) ≤ limits.maxBulkLen) →
        decode limits (attributes.flatMap encodeAttribute ++ encodeCommand args ++ rest) =
          .complete args (attributes.flatMap encodeAttribute ++ encodeCommand args).length) ∧
      (∀ input args consumed, decode limits input = .complete args consumed →
        1 ≤ consumed ∧ consumed ≤ input.length) ∧
      (∀ input args consumed, decode limits input = .complete args consumed ↔
        ∃ skipped frame rest, input = skipped ++ frame ++ rest ∧
          consumed = (skipped ++ frame).length ∧ NoOps limits skipped ∧
          IsRequest limits frame args) ∧
      ∀ skipped frame rest args, NoOps limits skipped → IsMultibulk limits frame args →
        (WellFormed limits (skipped ++ frame) args ↔
          AttributesEnd limits (skipped ++ frame ++ rest)) := by
  refine ⟨?_, fun _ _ _ => consumed_bounds, ?_, fun _ _ _ _ => wellFormed_iff⟩
  · intro attributes args rest attributesFit nonempty fits argsFit
    exact decode_encodeCommand attributesFit nonempty fits argsFit rest
  · intro input args consumed
    rw [decode_eq_complete_iff]
    constructor
    · rintro ⟨front, rest, rfl, rfl, accepts⟩
      obtain ⟨skipped, frame, rfl, noOps, isRequest⟩ := accepts_nextRequest_iff.mp accepts
      exact ⟨skipped, frame, rest, rfl, rfl, noOps, isRequest⟩
    · rintro ⟨skipped, frame, rest, rfl, rfl, noOps, isRequest⟩
      exact ⟨skipped ++ frame, rest, rfl, rfl,
        accepts_nextRequest_iff.mpr ⟨skipped, frame, rfl, noOps, isRequest⟩⟩

/-- An attribute of one pair, with two other bytes for the CR LF behind its key and value. -/
def looseAttribute : Bytes := utf8 "|1\r\n$1\r\naXX$1\r\nbYY"

private theorem isAttribute_looseAttribute :
    IsAttribute .default looseAttribute [(utf8 "a", utf8 "XX"), (utf8 "b", utf8 "YY")] := by
  have bulk (payload ending : Bytes) (one : payload.length = 1) (two : ending.length = 2) :
      IsBulk .default (headed 36 (utf8 "1") ++ (payload ++ ending)) payload ending :=
    ⟨⟨utf8 "1", rfl, by rw [one]; decide +kernel⟩, by rw [one]; decide, two⟩
  refine ⟨⟨utf8 "1", _, 1, ?_, by decide +kernel, rfl,
    .cons (bulk _ _ rfl rfl) (.cons (bulk _ _ rfl rfl) .nil)⟩, by decide, by decide⟩
  decide +kernel

theorem not_wellFormed_loose : decode .default (looseAttribute ++ encodeCommand [utf8 "PING"]) =
        .complete [utf8 "PING"] (looseAttribute ++ encodeCommand [utf8 "PING"]).length ∧
      ¬WellFormed .default (looseAttribute ++ encodeCommand [utf8 "PING"]) [utf8 "PING"] := by
  refine ⟨by decide +kernel, ?_⟩
  rintro ⟨skipped, frame, split, ended, isMultibulk⟩
  have ends := @attributesEnd_of_frames .default skipped [] frame _ ended (.inl isMultibulk)
  rw [← split, append_nil] at ends
  have same := ends [] looseAttribute (encodeCommand [utf8 "PING"]) _ rfl .nil
    isAttribute_looseAttribute (utf8 "a", utf8 "XX") (by simp)
  exact absurd same (by decide +kernel)

end IronCache.Protocol
