import IronCache.Protocol.Arrival

/-!
# The grammar of requests

The frames that the decoder takes and those it skips.
-/

namespace IronCache.Protocol

open Incremental
open List

variable {limits : Limits}

def headed (marker : UInt8) (digits : Bytes) : Bytes := marker :: (digits ++ [13, 10])

/-- A bulk string with its payload and the two bytes behind it. -/
structure IsBulk (limits : Limits) (frame payload ending : Bytes) : Prop where
  split : ∃ digits, frame = headed 36 digits ++ (payload ++ ending) ∧
    parseI64 digits = some (payload.length : ℤ)
  fits : payload.length ≤ limits.maxBulkLen
  ends : ending.length = 2

/-- A multibulk of at least one argument. -/
structure IsMultibulk (limits : Limits) (frame : Bytes) (args : Request) : Prop where
  split : ∃ digits body, frame = headed 42 digits ++ body ∧ parseI64 digits = some (args.length : ℤ) ∧
    Listed (fun frame payload => IsBulk limits frame payload [13, 10]) body args
  fits : args.length ≤ limits.maxMultibulk
  nonempty : args ≠ []

def IsEmptyMultibulk (limits : Limits) (frame : Bytes) : Prop :=
  ∃ digits count, frame = headed 42 digits ∧ parseI64 digits = some count ∧ count ≤ 0 ∧
    count ≤ limits.maxMultibulk

/-- An attribute with its keys and values in turn, each with the two bytes behind it. -/
structure IsAttribute (limits : Limits) (frame : Bytes) (elements : List (Bytes × Bytes)) : Prop where
  split : ∃ digits body, ∃ pairs : ℕ, frame = headed 124 digits ++ body ∧
    parseI64 digits = some (pairs : ℤ) ∧ elements.length = 2 * pairs ∧
    Listed (fun frame element => IsBulk limits frame element.1 element.2) body elements
  fits : elements.length ≤ 2 * limits.maxMultibulk
  counts : elements.length < 2 ^ 63

/-- A line, ended by LF or CR LF, that is split into these arguments. -/
def IsInline (limits : Limits) (frame : Bytes) (args : Request) : Prop :=
  ∃ line, frame = line ++ [10] ∧ 10 ∉ line ∧ frame.head? ≠ some 42 ∧ frame.head? ≠ some 124 ∧
    (lineText line).length ≤ limits.maxInlineLen ∧ splitInline (lineText line) = .ok args

inductive NoOp (limits : Limits) (frame : Bytes) : Prop
  | emptyMultibulk (isEmpty : IsEmptyMultibulk limits frame)
  | blankLine (isBlank : IsInline limits frame [])
  | skippedAttribute (elements : List (Bytes × Bytes)) (isAttribute : IsAttribute limits frame elements)

variable {digits input others bytes : Bytes} {number : ℤ} {unexpected : UInt8 → Stop} {length : ℕ}
  {kind : Bytes → Prop}

private theorem parseDigits_clean (parsed : parseDigits digits = some number) : 13 ∉ digits := by
  intro member
  unfold parseDigits at parsed
  split_ifs at parsed
  obtain ⟨value, read, -⟩ := Option.map_eq_some_iff.mp parsed
  have digit := Decimal.isDigit_of_parseFrom read member
  simp [Decimal.isDigit] at digit

private theorem parseI64_clean (parsed : parseI64 digits = some number) : 13 ∉ digits := by
  cases digits with
  | nil => simp
  | cons first others =>
    rw [parseI64] at parsed
    split_ifs at parsed with minus plus
    · obtain ⟨value, read, -⟩ := Option.map_eq_some_iff.mp parsed
      simp [minus, parseDigits_clean read]
    · simp [plus, parseDigits_clean parsed]
    · exact parseDigits_clean parsed

theorem accepts_header (parsed : parseI64 digits = some number) :
    Accepts (Parser.line : Parser Stop Bytes) (digits ++ [13, 10]) digits :=
  accepts_line (parseI64_clean parsed)

private theorem accepts_bulkHeader (parsed : parseI64 digits = some (length : ℤ))
    (fits : length ≤ limits.maxBulkLen) :
    Accepts (bulkHeader limits unexpected) (headed 36 digits) length := by
  refine (accepts_header parsed).last ?_
  rw [parsed]
  change Accepts (if _ then _ else _) _ _
  rw [if_neg (by omega), Int.toNat_natCast]
  exact accepts_pure length

variable {rest frame : Bytes} {args : Request} {answer : Option Request}

private theorem bulkHeader_eq_done (done : bulkHeader limits unexpected input = .done length rest) :
    ∃ digits, input = headed 36 digits ++ rest ∧ parseI64 digits = some (length : ℤ) ∧
      length ≤ limits.maxBulkLen := by
  obtain ⟨marker, behind, first, others⟩ := bind_eq_done.mp done
  cases input with
  | nil => cases first
  | cons head tail =>
    cases first
    split_ifs at others with isBulk
    · cases others
    obtain ⟨digits, left, header, number⟩ := bind_eq_done.mp others
    obtain ⟨rfl, -⟩ := line_eq_done header
    cases parsed : parseI64 digits with
    | none =>
      rw [parsed] at number
      cases number
    | some count =>
      rw [parsed] at number
      dsimp only at number
      split_ifs at number with outside
      · cases number
      cases number
      obtain rfl := not_not.mp isBulk
      refine ⟨digits, by simp [headed], ?_, by omega⟩
      rw [parsed, Int.toNat_of_nonneg (by omega)]

section Bulk

variable {unexpected : UInt8 → Stop} {finish : Bytes → Bytes → Parser Stop α}

variable {value : α}

theorem IsBulk.accepts (isBulk : IsBulk limits frame payload ending)
    (last : Accepts (finish payload ending) [] value) :
    Accepts (bulkHeader limits unexpected >>= fun length =>
      Parser.take length >>= fun payload => Parser.take 2 >>= finish payload) frame value := by
  obtain ⟨digits, rfl, parsed⟩ := isBulk.split
  refine (accepts_bulkHeader parsed isBulk.fits).bind ((accepts_take payload).bind ?_)
  rw [← isBulk.ends]
  exact (accepts_take ending).last last

theorem exists_isBulk
    (done : (bulkHeader limits unexpected >>= fun length => Parser.take length >>= fun payload =>
      Parser.take 2 >>= finish payload) input = .done value rest) :
    ∃ frame payload ending left, input = frame ++ left ∧ IsBulk limits frame payload ending ∧
      finish payload ending left = .done value rest := by
  obtain ⟨length, behind, header, taken⟩ := bind_eq_done.mp done
  obtain ⟨payload, after, payloadTaken, endTaken⟩ := bind_eq_done.mp taken
  obtain ⟨ending, left, endingTaken, finished⟩ := bind_eq_done.mp endTaken
  obtain ⟨digits, rfl, parsed, fits⟩ := bulkHeader_eq_done header
  obtain ⟨rfl, rfl⟩ := take_eq_done.mp payloadTaken
  obtain ⟨rfl, ends⟩ := take_eq_done.mp endingTaken
  exact ⟨headed 36 digits ++ (payload ++ ending), payload, ending, left, by simp,
    ⟨⟨digits, rfl, parsed⟩, fits, ends⟩, finished⟩

end Bulk

theorem accepts_argument_iff :
    Accepts (argument limits) frame payload ↔ IsBulk limits frame payload [13, 10] := by
  constructor
  · intro accepts
    obtain ⟨bulk, taken, ending, left, split, isBulk, finished⟩ := exists_isBulk (accepts [])
    split_ifs at finished with wrong
    · cases finished
    cases finished
    obtain rfl := not_not.mp wrong
    obtain rfl := append_cancel_right split
    exact isBulk
  · intro isBulk
    refine isBulk.accepts ?_
    exact accepts_pure payload

theorem accepts_attributeElement_iff :
    Accepts (attributeElement limits) frame element ↔ IsBulk limits frame element.1 element.2 := by
  constructor
  · intro accepts
    obtain ⟨bulk, taken, ending, left, split, isBulk, finished⟩ := exists_isBulk (accepts [])
    cases finished
    obtain rfl := append_cancel_right split
    exact isBulk
  · intro isBulk
    exact isBulk.accepts (accepts_pure element)

theorem IsMultibulk.accepts (isMultibulk : IsMultibulk limits frame args) :
    Accepts (decodeMultibulk limits) frame (some args) := by
  obtain ⟨digits, body, rfl, parsed, listed⟩ := isMultibulk.split
  have taken : Taken (argument limits) body args :=
    listed.mono fun frame payload _ isBulk => accepts_argument_iff.mpr isBulk
  have positive : 0 < args.length := length_pos_iff.mpr isMultibulk.nonempty
  refine accepts_byte.bind ((accepts_header parsed).bind ?_)
  rw [parsed]
  change Accepts (if _ then _ else _) _ _
  rw [if_neg (by have := isMultibulk.fits; omega), if_neg (by omega), Int.toNat_natCast]
  exact taken.accepts_times.last (accepts_pure _)

theorem IsEmptyMultibulk.accepts (isEmpty : IsEmptyMultibulk limits frame) :
    Accepts (decodeMultibulk limits) frame none := by
  obtain ⟨digits, count, rfl, parsed, nonpositive, fits⟩ := isEmpty
  refine accepts_byte.bind ((accepts_header parsed).last ?_)
  rw [parsed]
  change Accepts (if _ then _ else _) _ _
  rw [if_neg (by omega), if_pos nonpositive]
  exact accepts_pure none

theorem IsAttribute.accepts (isAttribute : IsAttribute limits frame elements) :
    Accepts (decodeAndSkipAttribute limits) frame none := by
  obtain ⟨digits, body, pairs, rfl, parsed, count, listed⟩ := isAttribute.split
  have taken : Taken (attributeElement limits) body elements :=
    listed.mono fun frame element _ isBulk => accepts_attributeElement_iff.mpr isBulk
  have fits := isAttribute.fits
  have counts := isAttribute.counts
  refine accepts_byte.bind ((accepts_header parsed).bind ?_)
  rw [parsed]
  change Accepts (if _ then _ else _) _ _
  rw [if_neg (by omega), if_neg (by omega), if_neg (by omega),
    show ((pairs : ℤ) * 2).toNat = elements.length by omega]
  exact taken.accepts_times.last (accepts_pure none)

theorem exists_headed {next : Bytes → Parser ε α} (done : (Parser.line >>= next) others = .done value rest) :
    ∃ digits left, marker :: others = headed marker digits ++ left ∧
      next digits left = .done value rest := by
  obtain ⟨digits, left, header, taken⟩ := bind_eq_done.mp done
  obtain ⟨rfl, -⟩ := line_eq_done header
  exact ⟨digits, left, rfl, taken⟩

private theorem multibulk_of_done (done : decodeMultibulk limits (42 :: others) = .done answer rest) :
    ∃ frame, 42 :: others = frame ++ rest ∧
      answer.elim (IsEmptyMultibulk limits frame) (IsMultibulk limits frame) := by
  obtain ⟨digits, left, split, taken⟩ := exists_headed done
  rw [split]
  cases parsed : parseI64 digits with
  | none =>
    rw [parsed] at taken
    cases taken
  | some count =>
    rw [parsed] at taken
    dsimp only at taken
    split_ifs at taken with large nonpositive
    · cases taken
    · cases taken
      exact ⟨headed 42 digits, rfl, digits, count, rfl, parsed, nonpositive, by omega⟩
    · obtain ⟨args, behind, argsTaken, finished⟩ := bind_eq_done.mp taken
      cases finished
      obtain ⟨length, body, rfl, listed⟩ := times_eq_done steady_argument.isLocal argsTaken
      refine ⟨headed 42 digits ++ body, by simp, ⟨digits, body, rfl, ?_, ?_⟩, by omega, ?_⟩
      · rw [parsed, length, Int.toNat_of_nonneg (by omega)]
      · exact listed.mono fun frame payload _ accepts => accepts_argument_iff.mp accepts
      · rintro rfl
        simp only [length_nil] at length
        omega

private theorem attribute_of_done (done : decodeAndSkipAttribute limits (124 :: others) = .done answer rest) :
    answer = none ∧ ∃ frame elements, 124 :: others = frame ++ rest ∧
      IsAttribute limits frame elements := by
  obtain ⟨digits, left, split, taken⟩ := exists_headed done
  rw [split]
  cases parsed : parseI64 digits with
  | none =>
    rw [parsed] at taken
    cases taken
  | some pairs =>
    rw [parsed] at taken
    dsimp only at taken
    split_ifs at taken with negative large overflows
    · cases taken
    · cases taken
    · cases taken
    · obtain ⟨elements, behind, elementsTaken, finished⟩ := bind_eq_done.mp taken
      cases finished
      obtain ⟨length, body, rfl, listed⟩ :=
        times_eq_done steady_attributeElement.isLocal elementsTaken
      refine ⟨rfl, headed 124 digits ++ body, elements, by simp,
        ⟨digits, body, pairs.toNat, rfl, ?_, by omega, ?_⟩, by omega, by omega⟩
      · rw [parsed, Int.toNat_of_nonneg (by omega)]
      · exact listed.mono fun frame element _ accepts => accepts_attributeElement_iff.mp accepts

theorem IsInline.accepts (isInline : IsInline limits frame args) :
    Accepts (decodeInline limits) frame (if args = [] then none else some args) := by
  obtain ⟨line, rfl, unbroken, -, -, fits, split⟩ := isInline
  intro rest
  rw [append_assoc, singleton_append, decodeInline_line unbroken, inlineAnswer, if_neg (by omega), split]
  cases args <;> rfl

private theorem inline_of_done (isInline : input.head? ≠ some 42 ∧ input.head? ≠ some 124)
    (done : decodeInline limits input = .done answer rest) :
    ∃ frame args, input = frame ++ rest ∧ IsInline limits frame args ∧
      answer = if args = [] then none else some args := by
  obtain ⟨line, rfl, unbroken, answered⟩ := exists_line_of_done done
  have head : (line ++ [10]).head? = (line ++ 10 :: rest).head? := by cases line <;> rfl
  unfold inlineAnswer at answered
  split_ifs at answered with large
  cases split : splitInline (lineText line) with
  | error reply =>
    rw [split] at answered
    cases answered
  | ok args =>
    refine ⟨line ++ [10], args, by simp, ⟨line, rfl, unbroken, ?_, ?_, by omega, split⟩, ?_⟩
    · rw [head]
      exact isInline.1
    · rw [head]
      exact isInline.2
    · rw [split] at answered
      cases args <;> cases answered <;> rfl

theorem IsMultibulk.accepts_frame (isMultibulk : IsMultibulk limits frame args) :
    Accepts (decodeFrame limits) frame (some args) := by
  have accepts := isMultibulk.accepts
  obtain ⟨digits, body, rfl, -, -⟩ := isMultibulk.split
  exact accepts_peek accepts

theorem IsInline.accepts_frame (isInline : IsInline limits frame args) :
    Accepts (decodeFrame limits) frame (if args = [] then none else some args) := by
  have accepts := isInline.accepts
  obtain ⟨line, rfl, -, notMultibulk, notAttribute, -, -⟩ := isInline
  cases line with
  | nil => exact accepts_peek accepts
  | cons first others =>
    apply accepts_peek
    rw [frameOf, if_neg (by simpa using notMultibulk), if_neg (by simpa using notAttribute)]
    exact accepts

theorem NoOp.accepts_frame (noOp : NoOp limits frame) : Accepts (decodeFrame limits) frame none := by
  cases noOp with
  | emptyMultibulk isEmpty =>
    have accepts := isEmpty.accepts
    obtain ⟨digits, count, rfl, -⟩ := isEmpty
    exact accepts_peek accepts
  | blankLine isBlank => simpa using isBlank.accepts_frame
  | skippedAttribute elements isAttribute =>
    have accepts := isAttribute.accepts
    obtain ⟨digits, body, pairs, rfl, -⟩ := isAttribute.split
    exact accepts_peek accepts

def IsRequest (limits : Limits) (frame : Bytes) (args : Request) : Prop :=
  IsMultibulk limits frame args ∨ IsInline limits frame args ∧ args ≠ []

private theorem frame_of_done (done : decodeFrame limits input = .done answer rest) :
    ∃ frame, input = frame ++ rest ∧ answer.elim (NoOp limits frame) (IsRequest limits frame) := by
  cases input with
  | nil => cases done
  | cons first others =>
    change frameOf limits first (first :: others) = _ at done
    unfold frameOf at done
    split_ifs at done with multibulk annotated
    · subst multibulk
      obtain ⟨frame, split, isMultibulk⟩ := multibulk_of_done done
      refine ⟨frame, split, ?_⟩
      cases answer with
      | none => exact .emptyMultibulk isMultibulk
      | some args => exact .inl isMultibulk
    · subst annotated
      obtain ⟨rfl, frame, elements, split, isAttribute⟩ := attribute_of_done done
      exact ⟨frame, split, .skippedAttribute elements isAttribute⟩
    · obtain ⟨frame, args, split, isInline, rfl⟩ :=
        inline_of_done (by simp [multibulk, annotated]) done
      refine ⟨frame, split, ?_⟩
      split_ifs with blank
      · subst blank
        exact .blankLine isInline
      · exact .inr ⟨isInline, blank⟩

theorem accepts_frame_iff : Accepts (decodeFrame limits) frame answer ↔
      answer.elim (NoOp limits frame) (IsRequest limits frame) := by
  constructor
  · intro accepts
    obtain ⟨other, split, answers⟩ := frame_of_done (accepts [])
    obtain rfl := append_cancel_right split
    exact answers
  · intro answers
    cases answer with
    | none => exact NoOp.accepts_frame answers
    | some args =>
      rcases answers with isMultibulk | ⟨isInline, nonempty⟩
      · exact isMultibulk.accepts_frame
      · simpa [nonempty] using isInline.accepts_frame

/-- Frames of a kind, one after the other. -/
inductive Frames (kind : Bytes → Prop) : Bytes → Prop
  | nil : Frames kind []
  | cons {front back : Bytes} (head : kind front) (tail : Frames kind back) : Frames kind (front ++ back)

theorem Frames.append (head : Frames kind front) (tail : Frames kind back) : Frames kind (front ++ back) := by
  induction head with
  | nil => exact tail
  | cons here _ ih =>
    rw [append_assoc]
    exact .cons here ih

theorem Frames.mono {other : Bytes → Prop} (implies : ∀ frame, kind frame → other frame)
    (frames : Frames kind bytes) : Frames other bytes := by
  induction frames with
  | nil => exact .nil
  | cons head _ ih => exact .cons (implies _ head) ih

abbrev NoOps (limits : Limits) : Bytes → Prop := Frames (NoOp limits)

theorem skipped_of_noOps (noOps : NoOps limits bytes) : Skipped (decodeFrame limits) bytes := by
  induction noOps with
  | nil => exact .nil
  | cons head _ ih => exact .cons head.accepts_frame ih

theorem noOps_of_skipped (skipped : Skipped (decodeFrame limits) bytes) : NoOps limits bytes :=
  skipped.induct .nil fun _ _ accepts noOps => .cons (accepts_frame_iff.mp accepts) noOps

/-- One call of the decoder, by a caller that moves its buffer on by what was consumed. -/
def nextRequest (limits : Limits) : Parser Stop Request := fun input =>
  match decode limits input with
  | .complete request consumed => .done request (input.drop consumed)
  | .incomplete => .more
  | .error reply => .fail (.error reply)
  | .abort => .fail .overflow

theorem nextRequest_eq : nextRequest limits = (decodeFrame limits).skipping := by
  funext input
  unfold nextRequest decode
  cases answer : (decodeFrame limits).skipping input with
  | more => rfl
  | fail stop => cases stop <;> rfl
  | done request rest =>
    obtain ⟨front, rfl, -⟩ :=
      local_decodeFrame.skipping advances_decodeFrame answer
    simp

theorem local_nextRequest : Local (nextRequest limits) := by
  rw [nextRequest_eq]
  exact local_decodeFrame.skipping advances_decodeFrame

theorem advances_nextRequest : Advances (nextRequest limits) := by
  rw [nextRequest_eq]
  exact Advances.skipping local_decodeFrame advances_decodeFrame

theorem accepts_nextRequest_iff : Accepts (nextRequest limits) bytes args ↔
      ∃ skipped frame, bytes = skipped ++ frame ∧ NoOps limits skipped ∧
        IsRequest limits frame args := by
  rw [nextRequest_eq]
  constructor
  · intro accepts
    obtain ⟨skipped, frame, split, isSkipped, accepted⟩ :=
      skipping_eq_done local_decodeFrame advances_decodeFrame (accepts [])
    obtain rfl := append_cancel_right split
    exact ⟨skipped, frame, rfl, noOps_of_skipped isSkipped, accepts_frame_iff.mp accepted⟩
  · rintro ⟨skipped, frame, rfl, noOps, isRequest⟩
    exact accepts_skipping advances_decodeFrame (skipped_of_noOps noOps) (accepts_frame_iff.mpr isRequest)

theorem decode_eq_complete_iff : decode limits input = .complete args consumed ↔
      ∃ front rest, input = front ++ rest ∧ consumed = front.length ∧
        Accepts (nextRequest limits) front args := by
  constructor
  · intro complete
    unfold decode at complete
    cases answer : (decodeFrame limits).skipping input with
    | more => simp [answer] at complete
    | fail stop => cases stop <;> simp [answer] at complete
    | done request rest =>
      simp only [answer, DecodeOutcome.complete.injEq] at complete
      obtain ⟨rfl, rfl⟩ := complete
      rw [← nextRequest_eq] at answer
      obtain ⟨front, rfl, accepts⟩ := local_nextRequest answer
      exact ⟨front, rest, rfl, by simp, accepts⟩
  · rintro ⟨front, rest, rfl, rfl, accepts⟩
    have done := accepts rest
    rw [nextRequest_eq] at done
    simp [decode, done]

end IronCache.Protocol
