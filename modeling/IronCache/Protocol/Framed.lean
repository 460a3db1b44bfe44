import IronCache.Protocol.Reply

/-!
# Every reply is one frame

The reader of a version takes the bytes of a reply for one frame, but for the null bulk string.
-/

namespace IronCache.Protocol

open Incremental Store
open Decimal

variable {ryu : F64 → Bytes} {proto : ProtoVersion}

mutual

def replyOf (ryu : F64 → Bytes) (proto : ProtoVersion) : Value → Reply
  | .simpleString text => .text .simple (sanitizeLine text)
  | .error reply => .text .error (sanitizeLine reply.line).tail
  | .integer number => .integer number.toInt
  | .bulkString (some data) => .payload .bulk data
  | .bulkString none => .null .bulk
  | .array (some items) => .elements .array (repliesOf ryu proto items)
  | .array none =>
    match proto with
    | .resp3 => .null .null
    | .resp2 => .null .array
  | .null =>
    match proto with
    | .resp3 => .null .null
    | .resp2 => .null .bulk
  | .double number =>
    match proto with
    | .resp3 => .text .double (formatDouble ryu number)
    | .resp2 => .payload .bulk (formatDouble ryu number)
  | .boolean flag =>
    match proto with
    | .resp3 => .boolean flag
    | .resp2 => .integer (if flag then 1 else 0)
  | .bigNumber text =>
    match proto with
    | .resp3 => .text .bigNumber (sanitizeLine text)
    | .resp2 => .payload .bulk text
  | .bulkError reply =>
    match proto with
    | .resp3 => .payload .bulkError reply.line.tail
    | .resp2 => .text .error (sanitizeLine reply.line).tail
  | .verbatimString format data =>
    match proto with
    | .resp3 => .verbatim format.toList data
    | .resp2 => .payload .bulk data
  | .map pairs =>
    match proto with
    | .resp3 => .elements .map (flatReplies ryu proto pairs)
    | .resp2 => .elements .array (flatReplies ryu proto pairs)
  | .pairs pairs =>
    match proto with
    | .resp3 => .elements .array (nestedReplies ryu proto pairs)
    | .resp2 => .elements .array (flatReplies ryu proto pairs)
  | .set items => .elements (if proto = .resp3 then .set else .array) (repliesOf ryu proto items)
  | .push items => .elements (if proto = .resp3 then .push else .array) (repliesOf ryu proto items)

def repliesOf (ryu : F64 → Bytes) (proto : ProtoVersion) : List Value → List Reply
  | [] => []
  | item :: items => replyOf ryu proto item :: repliesOf ryu proto items

def flatReplies (ryu : F64 → Bytes) (proto : ProtoVersion) : List (Value × Value) → List Reply
  | [] => []
  | (first, second) :: pairs =>
    replyOf ryu proto first :: replyOf ryu proto second :: flatReplies ryu proto pairs

def nestedReplies (ryu : F64 → Bytes) (proto : ProtoVersion) : List (Value × Value) → List Reply
  | [] => []
  | (first, second) :: pairs =>
    .elements .array [replyOf ryu proto first, replyOf ryu proto second] :: nestedReplies ryu proto pairs

end

mutual

/-- The value is a null bulk string or holds one at some depth. -/
def holdsNullBulk : Value → Bool
  | .bulkString none => true
  | .array (some items) => anyHoldsNullBulk items
  | .map pairs => pairHoldsNullBulk pairs
  | .pairs pairs => pairHoldsNullBulk pairs
  | .set items => anyHoldsNullBulk items
  | .push items => anyHoldsNullBulk items
  | _ => false

def anyHoldsNullBulk : List Value → Bool
  | [] => false
  | item :: items => holdsNullBulk item || anyHoldsNullBulk items

def pairHoldsNullBulk : List (Value × Value) → Bool
  | [] => false
  | (first, second) :: pairs =>
    holdsNullBulk first || (holdsNullBulk second || pairHoldsNullBulk pairs)

end

/-- The parser takes the bytes for a value, or fails on them. -/
def Answers (parser : Parser Unit α) (bytes : Bytes) (fails : Bool) (value : α) : Prop :=
  ∀ rest, parser (bytes ++ rest) = if fails then .fail () else .done value rest

namespace Answers

variable {parser first : Parser Unit α} {next : α → Parser Unit β} {bytes more : Bytes}
  {fails : Bool} {value : α} {result : β}

theorem of_accepts (accepts : Accepts parser bytes value) : Answers parser bytes false value :=
  fun rest => accepts rest

theorem after (accepts : Accepts first bytes value) (answers : Answers (next value) more fails result) :
    Answers (first >>= next) (bytes ++ more) fails result := by
  intro rest
  rw [List.append_assoc, bind_of_done (accepts (more ++ rest))]
  exact answers rest

theorem bind (answers : Answers first bytes fails value)
    (others : Answers (next value) more alsoFails result) :
    Answers (first >>= next) (bytes ++ more) (fails || alsoFails) result := by
  intro rest
  have here := answers (more ++ rest)
  rw [List.append_assoc]
  cases fails with
  | true => exact bind_eq_fail.mpr (.inl here)
  | false =>
    rw [bind_of_done here]
    exact others rest

theorem map (answers : Answers parser bytes fails value) (make : α → β) :
    Answers (parser >>= fun value => pure (make value)) bytes fails (make value) := by
  have made : Answers (pure (make value) : Parser Unit β) [] false (make value) :=
    of_accepts (accepts_pure (make value))
  have mapped := @bind _ _ _ (fun value => pure (make value)) _ _ _ _ _ _ answers made
  rwa [List.append_nil, Bool.or_false] at mapped

theorem times_cons (answers : Answers parser bytes fails value)
    (others : Answers (parser.times count) more alsoFails values) :
    Answers (parser.times (count + 1)) (bytes ++ more) (fails || alsoFails) (value :: values) :=
  answers.bind (others.map (value :: ·))

end Answers

private theorem accepts_cleanLine (clean : 13 ∉ text ∧ 10 ∉ text) :
    Accepts cleanLine (text ++ [13, 10]) text := by
  refine (accepts_line clean.1).last ?_
  rw [if_neg (by simp [clean])]
  exact accepts_pure text

theorem sanitizeLine_clean (text : Bytes) : 13 ∉ sanitizeLine text ∧ 10 ∉ sanitizeLine text := by
  constructor <;>
  · intro member
    obtain ⟨byte, -, same⟩ := List.mem_map.mp member
    split_ifs at same with broken
    · revert same
      decide
    · exact broken (by simp [same])

theorem print_clean (number : ℕ) : 13 ∉ print number ∧ 10 ∉ print number :=
  ⟨fun member => absurd (isDigit_of_mem_print member) (by decide),
    fun member => absurd (isDigit_of_mem_print member) (by decide)⟩

theorem i64ToStr_natCast (number : ℕ) : i64ToStr number = print number := by
  rw [i64ToStr, if_neg (by omega), Int.natAbs_natCast]

private theorem i64ToStr_clean : 13 ∉ i64ToStr number ∧ 10 ∉ i64ToStr number := by
  have digits := print_clean number.natAbs
  unfold i64ToStr
  split_ifs
  · simp [digits]
  · exact digits

theorem head_print_ne : (print number).head? ≠ some 45 := by
  intro head
  exact absurd (isDigit_of_mem_print (List.mem_of_mem_head? head)) (by decide)

theorem isNullHeader_print : isNullHeader proto (print number) = false := by
  have different : print number ≠ utf8 "-1" := by
    intro same
    exact head_print_ne (by rw [same]; decide +kernel)
  simp [isNullHeader, different]

private theorem parseSigned_i64ToStr : parseSigned (i64ToStr number) = some number := by
  unfold i64ToStr
  split_ifs with negative
  · rw [parseSigned, if_pos (by rfl), List.tail_cons, parse_print, Option.map_some, Option.some.injEq]
    omega
  rw [parseSigned, if_neg head_print_ne, parse_print, Option.map_some,
    Option.some.injEq, Int.ofNat_eq_natCast]
  omega

theorem accepts_payloadOf : Accepts (payloadOf (print payload.length)) (payload ++ [13, 10]) payload := by
  unfold payloadOf
  rw [parse_print]
  refine (accepts_take payload).bind ((accepts_take [13, 10]).last ?_)
  rw [if_neg (by decide)]
  exact accepts_pure payload

theorem answers_frame {kind : Kind} (isKnown : kind ∈ Kind.known proto)
    {next : Parser Unit Reply → Bytes → Parser Unit Reply}
    (body : ∀ inner, frameBody proto inner kind = cleanLine >>= next inner) {text more : Bytes}
    (clean : 13 ∉ text ∧ 10 ∉ text) {fails : Bool} {reply : Reply} {depth : ℕ}
    (deep : (textLine kind.marker text ++ more).length ≤ depth) (made : ∀ inner, more.length ≤ inner →
      Answers (next (frame proto inner) text) more fails reply) :
    Answers (frame proto depth) (textLine kind.marker text ++ more) fails reply := by
  simp only [textLine, List.length_append, List.length_cons] at deep
  cases depth with
  | zero => omega
  | succ depth =>
    change Answers _ ([kind.marker] ++ (text ++ [13, 10] ++ more)) _ _
    refine Answers.after accepts_byte ?_
    rw [Kind.ofMarker_marker isKnown]
    change Answers (frameBody proto (frame proto depth) kind) _ _ _
    rw [body]
    exact Answers.after (accepts_cleanLine clean) (made depth (by omega))

theorem answers_line {kind : Kind} (isKnown : kind ∈ Kind.known proto) {next : Bytes → Parser Unit Reply}
    (body : ∀ inner, frameBody proto inner kind = cleanLine >>= next) {text : Bytes}
    (clean : 13 ∉ text ∧ 10 ∉ text) {reply : Reply} {depth : ℕ}
    (deep : (textLine kind.marker text).length ≤ depth) (made : Accepts (next text) [] reply) :
    Answers (frame proto depth) (textLine kind.marker text) false reply := by
  have line := @answers_frame proto kind isKnown (fun _ => next) body text [] clean false reply
    depth (by simpa using deep) fun _ _ => .of_accepts made
  rwa [List.append_nil] at line

private theorem answers_errorLine (reply : ErrorReply) {depth : ℕ}
    (deep : (encodeErrorLine reply).length ≤ depth) :
    Answers (frame proto depth) (encodeErrorLine reply) false
      (.text .error (sanitizeLine reply.line).tail) := by
  have line : encodeErrorLine reply = textLine 45 (sanitizeLine reply.line).tail := rfl
  have clean := sanitizeLine_clean reply.line
  rw [line] at deep ⊢
  refine @answers_line proto .error (by cases proto <;> decide) _ (fun _ => rfl) _ ?_ _ depth deep
    (accepts_pure _)
  exact ⟨fun member => clean.1 (List.mem_of_mem_tail member),
    fun member => clean.2 (List.mem_of_mem_tail member)⟩

private theorem answers_integer {depth : ℕ} (deep : (textLine 58 (i64ToStr number)).length ≤ depth) :
    Answers (frame proto depth) (textLine 58 (i64ToStr number)) false (.integer number) := by
  refine @answers_line proto .integer (by cases proto <;> decide) _ (fun _ => rfl) _
    i64ToStr_clean _ depth deep ?_
  rw [parseSigned_i64ToStr]
  exact accepts_pure _

theorem answers_payload {kind : Kind} (isKnown : kind ∈ Kind.known proto)
    {next : Bytes → Parser Unit Reply} {payload : Bytes} {reply : Reply} {depth : ℕ}
    (body : ∀ inner, frameBody proto inner kind = cleanLine >>= next)
    (deep : (countLine kind.marker payload.length ++ (payload ++ [13, 10])).length ≤ depth)
    (made : Accepts (next (print payload.length)) (payload ++ [13, 10]) reply) :
    Answers (frame proto depth) (countLine kind.marker payload.length ++ (payload ++ [13, 10]))
      false reply := by
  unfold countLine at deep ⊢
  rw [i64ToStr_natCast] at deep ⊢
  exact @answers_frame proto kind isKnown (fun _ => next) body _ _ (print_clean _) false reply
    depth deep fun _ _ => .of_accepts made

private theorem answers_bulk {depth : ℕ} (deep : (encodeBulkRef data).length ≤ depth) :
    Answers (frame proto depth) (encodeBulkRef data) false (.payload .bulk data) := by
  refine @answers_payload proto .bulk (by cases proto <;> decide) _ data _ depth (fun _ => rfl) deep ?_
  rw [if_neg (by simp [isNullHeader_print])]
  exact accepts_payloadOf.last (accepts_pure _)

theorem answers_elements {kind : Kind} (isKnown : kind ∈ Kind.known proto)
    {next : Parser Unit Reply → Bytes → Parser Unit Reply}
    (body : ∀ inner, frameBody proto inner kind = cleanLine >>= next inner) {count : ℕ} (counted : ∀ inner,
      next inner (print count) = elementsOf kind (print count) inner)
    {elements : Bytes} {fails : Bool} {items : List Reply} {depth : ℕ}
    (deep : (countLine kind.marker count ++ elements).length ≤ depth)
    (answers : ∀ inner, elements.length ≤ inner →
      Answers ((frame proto inner).times (if kind = .map then 2 * count else count)) elements
        fails items) :
    Answers (frame proto depth) (countLine kind.marker count ++ elements) fails (.elements kind items) := by
  unfold countLine at deep ⊢
  rw [i64ToStr_natCast] at deep ⊢
  refine @answers_frame proto kind isKnown next body _ _ (print_clean _) fails _ depth deep ?_
  intro inner short
  rw [counted]
  unfold elementsOf
  rw [parse_print]
  exact (answers inner short).map (Reply.elements kind)

theorem answers_array {count : ℕ} {elements : Bytes} {fails : Bool} {items : List Reply}
    {depth : ℕ} (deep : (countLine 42 count ++ elements).length ≤ depth)
    (answers : ∀ inner, elements.length ≤ inner →
      Answers ((frame proto inner).times count) elements fails items) :
    Answers (frame proto depth) (countLine 42 count ++ elements) fails (.elements .array items) :=
  @answers_elements proto .array (by cases proto <;> decide) _ (fun _ => rfl) count
    (fun _ => if_neg (by simp [isNullHeader_print])) elements fails items depth deep answers

/-- The bytes hold a null bulk string in the version that has none. -/
def lost (proto : ProtoVersion) (holds : Bool) : Bool := proto = .resp3 && holds

theorem lost_or : lost proto (left || right) = (lost proto left || lost proto right) := by
  cases proto <;> rfl

theorem Answers.kept {parser : Parser Unit α} {bytes : Bytes} {value : α}
    (answers : Answers parser bytes false value) (proto : ProtoVersion) :
    Answers parser bytes (lost proto false) value := by
  cases proto <;> exact answers

private theorem answers_null_resp3 {depth : ℕ} (deep : (utf8 "_\r\n").length ≤ depth) :
    Answers (frame .resp3 depth) (utf8 "_\r\n") false (.null .null) :=
  @answers_line .resp3 .null (by decide) _ (fun _ => rfl) [] (by simp) _ depth deep (accepts_pure _)

private theorem answers_nullBulk {depth : ℕ} (deep : nullBulk.length ≤ depth) :
    Answers (frame proto depth) nullBulk (lost proto true) (.null .bulk) := by
  have bytes : nullBulk = textLine 36 (utf8 "-1") ++ [] := by decide +kernel
  rw [bytes] at deep ⊢
  refine @answers_frame proto .bulk (by cases proto <;> decide) (fun _ => _) (fun _ => rfl)
    (utf8 "-1") [] (by decide +kernel) _ _ depth deep fun _ _ => ?_
  cases proto with
  | resp2 =>
    rw [if_pos (by decide +kernel)]
    exact .of_accepts (accepts_pure _)
  | resp3 =>
    have noNumber : parse (utf8 "-1") = none := by decide +kernel
    intro rest
    rw [if_neg (by decide +kernel), payloadOf, noNumber]
    rfl

private theorem answers_nullArray_resp2 {depth : ℕ} (deep : (utf8 "*-1\r\n").length ≤ depth) :
    Answers (frame .resp2 depth) (utf8 "*-1\r\n") false (.null .array) := by
  have bytes : utf8 "*-1\r\n" = textLine 42 (utf8 "-1") ++ [] := by decide +kernel
  rw [bytes] at deep ⊢
  refine @answers_frame .resp2 .array (by decide) _ (fun _ => rfl)
    (utf8 "-1") [] (by decide +kernel) _ _ depth deep fun _ _ => ?_
  rw [if_pos (by decide +kernel)]
  exact .of_accepts (accepts_pure _)

private theorem answers_boolean_resp3 {depth : ℕ} (deep : (encode ryu .resp3 (.boolean flag)).length ≤ depth) :
    Answers (frame .resp3 depth) (encode ryu .resp3 (.boolean flag)) false (.boolean flag) := by
  have bytes : encode ryu .resp3 (.boolean flag) = textLine 35 (if flag then utf8 "t" else utf8 "f") := by
    cases flag <;> simp only [encode, if_true, if_false, Bool.false_eq_true] <;> decide +kernel
  rw [bytes] at deep ⊢
  cases flag with
  | true =>
    exact @answers_line .resp3 .boolean (by decide) _ (fun _ => rfl) (utf8 "t")
      (by decide +kernel) _ depth deep (accepts_pure _)
  | false =>
    refine @answers_line .resp3 .boolean (by decide) _ (fun _ => rfl) (utf8 "f")
      (by decide +kernel) _ depth deep ?_
    rw [if_neg (by decide +kernel), if_pos rfl]
    exact accepts_pure _

private theorem answers_verbatim_resp3 (format : Vector UInt8 3) {depth : ℕ}
    (deep : (encode ryu .resp3 (.verbatimString format data)).length ≤ depth) :
    Answers (frame .resp3 depth) (encode ryu .resp3 (.verbatimString format data)) false
      (.verbatim format.toList data) := by
  have width : format.toList.length = 3 := by simp
  have bytes : encode ryu .resp3 (.verbatimString format data) =
      countLine 61 (format.toList ++ 58 :: data).length ++
        (format.toList ++ 58 :: data ++ [13, 10]) := by
    rw [encode, List.length_append, List.length_cons, width]
    congr 2
    omega
  rw [bytes] at deep ⊢
  refine @answers_payload .resp3 .verbatim (by decide) _ _ _ depth (fun _ => rfl) deep ?_
  refine accepts_payloadOf.last ?_
  have colon : (format.toList ++ 58 :: data)[3]? = some 58 := by
    rw [List.getElem?_append_right (by omega), width]
    rfl
  have name : (format.toList ++ 58 :: data).take 3 = format.toList := List.take_left' width
  have rest : (format.toList ++ 58 :: data).drop 4 = data := by
    rw [← List.singleton_append, ← List.append_assoc]
    exact List.drop_left' (by simp [width])
  rw [if_pos colon, name, rest]
  exact accepts_pure _

/-- The digit printer prints every number it is given the way it documents. -/
def Documented (ryu : F64 → Bytes) : Prop :=
  ∀ number : F64, number.isNan = false → isInfinite number = false → number.isZero = false →
    RyuText (ryu number)

mutual

theorem answers_encode (documented : Documented ryu) : ∀ (value : Value) {depth : ℕ},
    (encode ryu proto value).length ≤ depth →
      Answers (frame proto depth) (encode ryu proto value) (lost proto (holdsNullBulk value))
        (replyOf ryu proto value)
  | .simpleString text, depth, deep => by
    apply Answers.kept
    exact @answers_line proto .simple (by cases proto <;> decide) _ (fun _ => rfl) _
      (sanitizeLine_clean text) _ depth deep (accepts_pure _)
  | .error reply, depth, deep => by
    apply Answers.kept
    exact answers_errorLine reply deep
  | .integer number, depth, deep => by
    apply Answers.kept
    exact answers_integer deep
  | .bulkString (some data), depth, deep => by
    apply Answers.kept
    exact answers_bulk deep
  | .bulkString none, depth, deep => answers_nullBulk deep
  | .array (some items), depth, deep => by
    rw [encode] at deep ⊢
    exact answers_array deep fun inner short => answers_encodeAll documented items short
  | .array none, depth, deep => by
    apply Answers.kept
    cases proto with
    | resp2 => exact answers_nullArray_resp2 deep
    | resp3 => exact answers_null_resp3 deep
  | .null, depth, deep => by
    apply Answers.kept
    cases proto with
    | resp2 => exact answers_nullBulk deep
    | resp3 => exact answers_null_resp3 deep
  | .double number, depth, deep => by
    apply Answers.kept
    obtain ⟨printed, clean⟩ := formatDouble_spec (documented number)
    cases proto with
    | resp2 => exact answers_bulk deep
    | resp3 =>
      refine @answers_line .resp3 .double (by decide) _ (fun _ => rfl) _ clean _ depth deep ?_
      rw [if_pos printed]
      exact accepts_pure _
  | .boolean flag, depth, deep => by
    apply Answers.kept
    cases proto with
    | resp2 => exact answers_integer deep
    | resp3 => exact answers_boolean_resp3 deep
  | .bigNumber text, depth, deep => by
    apply Answers.kept
    cases proto with
    | resp2 => exact answers_bulk deep
    | resp3 =>
      exact @answers_line .resp3 .bigNumber (by decide) _ (fun _ => rfl) _
        (sanitizeLine_clean text) _ depth deep (accepts_pure _)
  | .bulkError reply, depth, deep => by
    apply Answers.kept
    cases proto with
    | resp2 => exact answers_errorLine reply deep
    | resp3 =>
      exact @answers_payload .resp3 .bulkError (by decide) _ _ _ depth (fun _ => rfl) deep
        (accepts_payloadOf.last (accepts_pure _))
  | .verbatimString format data, depth, deep => by
    apply Answers.kept
    cases proto with
    | resp2 => exact answers_bulk deep
    | resp3 => exact answers_verbatim_resp3 format deep
  | .map pairs, depth, deep => by
    have flat := fun {depth : ℕ} => @answers_flat documented pairs depth
    cases proto with
    | resp2 =>
      rw [encode] at deep ⊢
      refine answers_array deep fun inner short => ?_
      rw [Nat.mul_comm]
      exact flat short
    | resp3 =>
      rw [encode] at deep ⊢
      exact @answers_elements .resp3 .map (by decide) _ (fun _ => rfl) _ (fun _ => rfl) _ _ _
        depth deep fun inner short => flat short
  | .pairs pairs, depth, deep => by
    have flat := fun {depth : ℕ} => @answers_flat documented pairs depth
    have nested := fun {depth : ℕ} => @answers_nested documented pairs depth
    cases proto with
    | resp2 =>
      rw [encode] at deep ⊢
      refine answers_array deep fun inner short => ?_
      rw [Nat.mul_comm]
      exact flat short
    | resp3 =>
      rw [encode] at deep ⊢
      exact answers_array deep fun inner short => nested short
  | .set items, depth, deep => by
    have all := fun {depth : ℕ} => @answers_encodeAll documented items depth
    rw [encode] at deep ⊢
    cases proto with
    | resp2 => exact answers_array deep fun inner short => all short
    | resp3 =>
      exact @answers_elements .resp3 .set (by decide) _ (fun _ => rfl) _ (fun _ => rfl) _ _ _
        depth deep fun inner short => all short
  | .push items, depth, deep => by
    have all := fun {depth : ℕ} => @answers_encodeAll documented items depth
    rw [encode] at deep ⊢
    cases proto with
    | resp2 => exact answers_array deep fun inner short => all short
    | resp3 =>
      exact @answers_elements .resp3 .push (by decide) _ (fun _ => rfl) _ (fun _ => rfl) _ _ _
        depth deep fun inner short => all short

theorem answers_encodeAll (documented : Documented ryu) : ∀ (items : List Value) {depth : ℕ},
    (encodeAll ryu proto items).length ≤ depth →
      Answers ((frame proto depth).times items.length) (encodeAll ryu proto items)
        (lost proto (anyHoldsNullBulk items)) (repliesOf ryu proto items)
  | [], depth, deep => by
    apply Answers.kept
    exact .of_accepts (accepts_pure [])
  | item :: items, depth, deep => by
    rw [encodeAll, List.length_append] at deep
    rw [anyHoldsNullBulk, lost_or]
    exact (answers_encode documented item (by omega)).times_cons
      (answers_encodeAll documented items (by omega))

theorem answers_flat (documented : Documented ryu) : ∀ (pairs : List (Value × Value)) {depth : ℕ},
    (encodePairs ryu proto [] pairs).length ≤ depth →
      Answers ((frame proto depth).times (2 * pairs.length)) (encodePairs ryu proto [] pairs)
        (lost proto (pairHoldsNullBulk pairs)) (flatReplies ryu proto pairs)
  | [], depth, deep => by
    apply Answers.kept
    exact .of_accepts (accepts_pure [])
  | (first, second) :: pairs, depth, deep => by
    rw [encodePairs, List.nil_append] at deep ⊢
    simp only [List.length_append] at deep
    rw [pairHoldsNullBulk, lost_or, lost_or, List.append_assoc]
    have others := answers_flat documented pairs (show _ ≤ depth by omega)
    exact (answers_encode documented first (by omega)).times_cons
      ((answers_encode documented second (by omega)).times_cons others)

theorem answers_nested (documented : Documented ryu) : ∀ (pairs : List (Value × Value)) {depth : ℕ},
    (encodePairs ryu proto (utf8 "*2\r\n") pairs).length ≤ depth →
      Answers ((frame proto depth).times pairs.length)
        (encodePairs ryu proto (utf8 "*2\r\n") pairs) (lost proto (pairHoldsNullBulk pairs))
        (nestedReplies ryu proto pairs)
  | [], depth, deep => by
    apply Answers.kept
    exact .of_accepts (accepts_pure [])
  | (first, second) :: pairs, depth, deep => by
    have lead : utf8 "*2\r\n" = countLine 42 2 := by decide +kernel
    have width : (utf8 "*2\r\n").length = 4 := by decide +kernel
    rw [encodePairs] at deep ⊢
    simp only [List.length_append, width] at deep
    rw [pairHoldsNullBulk, ← Bool.or_assoc, lost_or, lost_or, List.append_assoc (utf8 _)]
    refine Answers.times_cons ?_ (answers_nested documented pairs (by omega))
    rw [lead]
    have both : ∀ inner, (encode ryu proto first ++ encode ryu proto second).length ≤ inner →
        Answers ((frame proto inner).times 2) (encode ryu proto first ++ encode ryu proto second)
          (lost proto (holdsNullBulk first) || lost proto (holdsNullBulk second))
          [replyOf ryu proto first, replyOf ryu proto second] := by
      intro inner short
      rw [List.length_append] at short
      have none : Answers ((frame proto inner).times 0) [] false [] :=
        .of_accepts (accepts_pure [])
      have last := (answers_encode documented second (show _ ≤ inner by omega)).times_cons none
      rw [List.append_nil, Bool.or_false] at last
      exact (answers_encode documented first (by omega)).times_cons last
    refine answers_array ?_ both
    rw [← lead]
    simp only [List.length_append, width]
    omega

end

/-- The reader takes all the bytes of a reply, or fails on the null bulk string in them. -/
theorem answers_readReply (documented : Documented ryu) (proto : ProtoVersion) (value : Value) :
    Answers (readReply proto) (encode ryu proto value) (lost proto (holdsNullBulk value))
      (replyOf ryu proto value) := by
  intro rest
  have deep : (encode ryu proto value ++ rest).length <
      (encode ryu proto value ++ rest).length + 1 := by omega
  rw [readReply_eq deep]
  refine answers_encode documented value ?_ rest
  rw [List.length_append]
  omega

/-- Nothing less than a whole reply is a frame. -/
private theorem readReply_of_short (documented : Documented ryu)
    (kept : lost proto (holdsNullBulk value) = false) (starts : start <+: encode ryu proto value)
    (short : start ≠ encode ryu proto value) : readReply proto start = .more := by
  have shorter := starts.length_le
  have accepts : Accepts (frame proto ((encode ryu proto value).length + 1))
      (encode ryu proto value) (replyOf ryu proto value) := by
    have answers := @answers_encode ryu proto documented value
      ((encode ryu proto value).length + 1) (by omega)
    rw [kept] at answers
    exact answers
  rw [readReply_eq (show start.length < (encode ryu proto value).length + 1 by omega)]
  exact steady_frame.more_of_short accepts starts short

/-- The bytes are one frame: a reader takes them all, nothing less, and leaves what follows. -/
def IsOneFrame (proto : ProtoVersion) (bytes : Bytes) : Prop :=
  ∃ reply, (∀ rest, readReply proto (bytes ++ rest) = .done reply rest) ∧
    ∀ start, start <+: bytes → start ≠ bytes → readReply proto start = .more

/-- Every reply is one frame of its version, save for a null bulk string in the version that has a
null of its own. -/
theorem encode_isOneFrame_iff (ryu : F64 → Bytes) (documented : Documented ryu)
    (proto : ProtoVersion) (value : Value) :
    IsOneFrame proto (encode ryu proto value) ↔ proto = .resp2 ∨ holdsNullBulk value = false := by
  have answers := answers_readReply documented proto value
  have condition : lost proto (holdsNullBulk value) = false ↔
      proto = .resp2 ∨ holdsNullBulk value = false := by
    cases proto <;> simp [lost]
  rw [← condition]
  constructor
  · rintro ⟨reply, whole, -⟩
    have here := answers []
    rw [whole []] at here
    cases failing : lost proto (holdsNullBulk value) with
    | false => rfl
    | true =>
      rw [failing] at here
      cases here
  · intro kept
    refine ⟨replyOf ryu proto value, fun rest => ?_, fun start starts short => ?_⟩
    · have here := answers rest
      rw [kept] at here
      exact here
    · exact readReply_of_short documented kept starts short

def onlyOne (_ : F64) : Bytes := utf8 "1.0"

theorem documented_onlyOne : Documented onlyOne := by
  intro number _ _ _
  change RyuText (utf8 "1.0")
  refine ⟨false, utf8 "1", utf8 "0", none, ?_, ?_, ?_, by decide, by simp⟩ <;> decide +kernel

theorem encode_isOneFrame_nested : IsOneFrame .resp3 (encode onlyOne .resp3 (.array (some
      [.null, .double ⟨0x3FF0000000000000⟩, .map [(.simpleString (utf8 "a\r\nb"), .null)]]))) :=
  (encode_isOneFrame_iff onlyOne documented_onlyOne .resp3 _).mpr (.inr rfl)

/-- The null bulk string is written as in the version before, which a reader takes for no frame. -/
theorem not_isOneFrame_nullBulk : encode onlyOne .resp3 (.bulkString none) = utf8 "$-1\r\n" ∧
      readReply .resp3 (utf8 "$-1\r\n") = .fail () ∧
      ¬IsOneFrame .resp3 (encode onlyOne .resp3 (.bulkString none)) := by
  have failed := answers_readReply documented_onlyOne .resp3 (.bulkString none)
  refine ⟨rfl, failed [], ?_⟩
  rintro ⟨reply, whole, -⟩
  have here := failed []
  rw [whole []] at here
  cases here

end IronCache.Protocol
