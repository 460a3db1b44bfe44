import IronCache.Lib.Bytes

/-!
# Incremental parsers

A parser over the bytes received so far takes a value off their front, asks for more, or fails.
Later bytes cannot change the answer of a `Steady` one.
-/

namespace IronCache.Incremental

/-- What a parser makes of the bytes received so far. -/
inductive Outcome (ε α : Type) where
  | done (value : α) (rest : Bytes)
  | more
  | fail (error : ε)
deriving DecidableEq

def Parser (ε α : Type) : Type := Bytes → Outcome ε α

namespace Parser

protected def pure (value : α) : Parser ε α := fun input => .done value input

protected def bind (first : Parser ε α) (next : α → Parser ε β) : Parser ε β := fun input =>
  match first input with
  | .done value rest => next value rest
  | .more => .more
  | .fail error => .fail error

instance : Monad (Parser ε) where
  pure := Parser.pure
  bind := Parser.bind

def fail (error : ε) : Parser ε α := fun _ => .fail error

def byte : Parser ε UInt8
  | [] => .more
  | first :: rest => .done first rest

def peek (choose : UInt8 → Parser ε α) : Parser ε α
  | [] => .more
  | first :: others => choose first (first :: others)

def take (count : ℕ) : Parser ε Bytes := fun input =>
  if count ≤ input.length then .done (input.take count) (input.drop count) else .more

/-- The bytes before the first CR LF, which is taken with them. -/
def line : Parser ε Bytes
  | [] => .more
  | first :: others =>
    if first = 13 ∧ others.head? = some 10 then .done [] others.tail
    else match line others with
      | .done body rest => .done (first :: body) rest
      | .more => .more
      | .fail error => .fail error

def times (parser : Parser ε α) : ℕ → Parser ε (List α)
  | 0 => pure []
  | count + 1 => do
      let first ← parser
      let others ← parser.times count
      pure (first :: others)

end Parser

variable {ε α β : Type} {parser first : Parser ε α} {next : α → Parser ε β}

/-- The parser takes exactly these bytes, whatever follows them, for this value. -/
def Accepts (parser : Parser ε α) (front : Bytes) (value : α) : Prop :=
  ∀ rest, parser (front ++ rest) = .done value rest

/-- What the parser takes does not depend on the bytes behind it. -/
def Local (parser : Parser ε α) : Prop :=
  ∀ ⦃input value rest⦄, parser input = .done value rest →
    ∃ front, input = front ++ rest ∧ Accepts parser front value

/-- A failure stands whatever is received later. -/
def FirmAt (parser : Parser ε α) (input : Bytes) : Prop :=
  ∀ error, parser input = .fail error → ∀ later, parser (input ++ later) = .fail error

structure Steady (parser : Parser ε α) : Prop where
  isLocal : Local parser
  firm : ∀ input, FirmAt parser input

/-- Values are only taken together with some bytes. -/
def Advances (parser : Parser ε α) : Prop :=
  ∀ ⦃input value rest⦄, parser input = .done value rest → rest.length < input.length

variable {input rest front : Bytes} {value : α} {values : List α}

theorem bind_eq_done : (first >>= next) input = .done result rest ↔
      ∃ value middle, first input = .done value middle ∧ next value middle = .done result rest := by
  change Parser.bind first next input = _ ↔ _
  unfold Parser.bind
  cases first input <;> simp

theorem bind_eq_fail : (first >>= next) input = .fail error ↔ first input = .fail error ∨
        ∃ value middle, first input = .done value middle ∧ next value middle = .fail error := by
  change Parser.bind first next input = _ ↔ _
  unfold Parser.bind
  cases first input <;> simp

theorem bind_of_done (taken : first input = .done value rest) : (first >>= next) input = next value rest := by
  change Parser.bind first next input = _
  rw [Parser.bind, taken]

theorem accepts_pure (value : α) : Accepts (pure value : Parser ε α) [] value := fun _ => rfl

theorem Accepts.bind (head : Accepts first front value) (tail : Accepts (next value) back result) :
    Accepts (first >>= next) (front ++ back) result := by
  intro rest
  rw [List.append_assoc, bind_of_done (head (back ++ rest))]
  exact tail rest

/-- A parser takes one value off the front, and it takes it one way. -/
theorem Accepts.unique (accepts : Accepts parser front value) (again : Accepts parser other result)
    (same : front ++ rest = other ++ left) : front = other ∧ value = result ∧ rest = left := by
  have here := accepts rest
  rw [same, again left] at here
  obtain ⟨rfl, rfl⟩ := Outcome.done.inj here
  exact ⟨List.append_cancel_right same, rfl, rfl⟩

theorem Accepts.last (head : Accepts first front value) (tail : Accepts (next value) [] result) :
    Accepts (first >>= next) front result := by
  rw [← List.append_nil front]
  exact head.bind tail

theorem accepts_byte : Accepts (Parser.byte : Parser ε UInt8) [byte] byte :=
  fun _ => rfl

theorem Local.pure (value : α) : Local (Pure.pure value : Parser ε α) := by
  intro input result rest taken
  cases taken
  exact ⟨[], rfl, accepts_pure value⟩

theorem Local.bind (head : Local first) (tail : ∀ value, Local (next value)) : Local (first >>= next) := by
  intro input result rest taken
  obtain ⟨value, middle, firstTaken, nextTaken⟩ := bind_eq_done.mp taken
  obtain ⟨front, rfl, frontAccepts⟩ := head firstTaken
  obtain ⟨back, rfl, backAccepts⟩ := tail value nextTaken
  exact ⟨front ++ back, by simp, frontAccepts.bind backAccepts⟩

namespace Steady

theorem pure (value : α) : Steady (Pure.pure value : Parser ε α) :=
  ⟨Local.pure value, fun _ _ failed => by cases failed⟩

theorem fail (error : ε) : Steady (Parser.fail error : Parser ε α) :=
  ⟨(fun _ _ _ taken => by cases taken), fun _ _ failed _ => failed⟩

theorem bind (head : Steady first) (tail : ∀ value, Steady (next value)) : Steady (first >>= next) := by
  refine ⟨head.isLocal.bind fun value => (tail value).isLocal, ?_⟩
  intro input error failed later
  rcases bind_eq_fail.mp failed with firstFailed | ⟨value, middle, firstTaken, nextFailed⟩
  · exact bind_eq_fail.mpr (.inl (head.firm input error firstFailed later))
  obtain ⟨front, rfl, accepts⟩ := head.isLocal firstTaken
  refine bind_eq_fail.mpr (.inr ⟨value, middle ++ later, ?_, ?_⟩)
  · rw [List.append_assoc]
    exact accepts (middle ++ later)
  · exact (tail value).firm middle error nextFailed later

theorem ite (condition : Prop) [Decidable condition] (left : Steady parser) (right : Steady other) :
    Steady (if condition then parser else other) := by
  split_ifs
  · exact left
  · exact right

theorem byte : Steady (Parser.byte : Parser ε UInt8) := by
  constructor
  · intro input value rest taken
    cases input with
    | nil => cases taken
    | cons first others =>
      cases taken
      exact ⟨[value], rfl, fun _ => rfl⟩
  · intro input error failed
    cases input <;> cases failed

end Steady

theorem Local.length_le (isLocal : Local parser) (taken : parser input = .done value rest) :
    rest.length ≤ input.length := by
  obtain ⟨front, rfl, -⟩ := isLocal taken
  simp

theorem Advances.byte_bind {next : UInt8 → Parser ε α} (tail : ∀ byte, Local (next byte)) :
    Advances (Parser.byte >>= next) := by
  intro input value rest taken
  obtain ⟨byte, middle, first, others⟩ := bind_eq_done.mp taken
  have shorter := (tail byte).length_le others
  cases input with
  | nil => cases first
  | cons head tail =>
    cases first
    simp only [List.length_cons]
    omega

section Peek

variable {choose : UInt8 → Parser ε α}

theorem Advances.peek (advances : ∀ byte, Advances (choose byte)) : Advances (Parser.peek choose) := by
  intro input value rest taken
  cases input with
  | nil => cases taken
  | cons first others => exact advances first taken

theorem accepts_peek {first : UInt8} {others : Bytes} {value : α}
    (accepts : Accepts (choose first) (first :: others) value) :
    Accepts (Parser.peek choose) (first :: others) value :=
  fun rest => accepts rest

theorem Local.peek (isLocal : ∀ byte, Local (choose byte))
    (advances : ∀ byte, Advances (choose byte)) : Local (Parser.peek choose) := by
  intro input value rest taken
  cases input with
  | nil => cases taken
  | cons first others =>
    have shorter := advances first taken
    obtain ⟨front, split, accepts⟩ := isLocal first taken
    cases front with
    | nil =>
      rw [split] at shorter
      simp at shorter
    | cons head front =>
      obtain ⟨rfl, -⟩ := List.cons.inj split
      exact ⟨first :: front, split, accepts_peek accepts⟩

theorem FirmAt.peek {first : UInt8} {others : Bytes} (firm : FirmAt (choose first) (first :: others)) :
    FirmAt (Parser.peek choose) (first :: others) :=
  fun error failed later => firm error failed later

end Peek

theorem take_eq_done {count : ℕ} {value : Bytes} :
    (Parser.take count : Parser ε Bytes) input = .done value rest ↔
      input = value ++ rest ∧ value.length = count := by
  unfold Parser.take
  constructor
  · intro taken
    split_ifs at taken with enough
    cases taken
    exact ⟨(List.take_append_drop count input).symm, List.length_take_of_le enough⟩
  · rintro ⟨rfl, rfl⟩
    rw [if_pos (by simp), List.take_left' rfl, List.drop_left' rfl]

theorem accepts_take (bytes : Bytes) : Accepts (Parser.take bytes.length : Parser ε Bytes) bytes bytes :=
  fun _ => take_eq_done.mpr ⟨rfl, rfl⟩

theorem Steady.take (count : ℕ) : Steady (Parser.take count : Parser ε Bytes) := by
  constructor
  · intro input value rest taken
    obtain ⟨rfl, rfl⟩ := take_eq_done.mp taken
    exact ⟨value, rfl, accepts_take value⟩
  · intro input error failed
    unfold Parser.take at failed
    split_ifs at failed

theorem line_ne_fail : (Parser.line : Parser ε Bytes) input ≠ .fail error := by
  induction input with
  | nil => simp [Parser.line]
  | cons first others ih =>
    unfold Parser.line
    split_ifs
    · simp
    cases found : (Parser.line : Parser ε Bytes) others with
    | done body rest => simp
    | more => simp
    | fail other =>
      intro same
      cases same
      exact ih found

theorem line_eq_done (taken : (Parser.line : Parser ε Bytes) input = .done body rest) :
    input = body ++ [13, 10] ++ rest ∧
      Accepts (Parser.line : Parser ε Bytes) (body ++ [13, 10]) body := by
  induction input generalizing body with
  | nil => simp [Parser.line] at taken
  | cons first others ih =>
    unfold Parser.line at taken
    split_ifs at taken with broken
    · cases taken
      obtain ⟨rfl, next⟩ := broken
      obtain ⟨tail, rfl⟩ := List.head?_eq_some_iff.mp next
      exact ⟨rfl, fun _ => rfl⟩
    cases found : (Parser.line : Parser ε Bytes) others with
    | more => simp [found] at taken
    | fail error => simp [found] at taken
    | done tail left =>
      simp only [found, Outcome.done.injEq] at taken
      obtain ⟨rfl, rfl⟩ := taken
      obtain ⟨rfl, accepts⟩ := ih found
      refine ⟨rfl, fun later => ?_⟩
      -- the byte behind the first one is the same with other bytes behind the line
      have unbroken : ¬(first = 13 ∧ (tail ++ [13, 10] ++ later).head? = some 10) := by
        cases tail with
        | nil => simp
        | cons second tail => simpa using broken
      change Parser.line (first :: (tail ++ [13, 10] ++ later)) = _
      rw [Parser.line, if_neg unbroken, accepts later]

theorem accepts_line (clean : 13 ∉ body) :
    Accepts (Parser.line : Parser ε Bytes) (body ++ [13, 10]) body := by
  intro rest
  induction body with
  | nil => rfl
  | cons first body ih =>
    simp only [List.mem_cons, not_or] at clean
    change Parser.line (first :: (body ++ [13, 10] ++ rest)) = _
    rw [Parser.line, if_neg fun broken => clean.1 broken.1.symm, ih clean.2]

theorem Steady.line : Steady (Parser.line : Parser ε Bytes) := by
  constructor
  · intro input body rest taken
    obtain ⟨split, accepts⟩ := line_eq_done taken
    exact ⟨body ++ [13, 10], split, accepts⟩
  · intro input error failed
    exact absurd failed line_ne_fail

/-- Bytes that are made of pieces, each of which stands for a value. -/
inductive Listed (piece : Bytes → α → Prop) : Bytes → List α → Prop
  | nil : Listed piece [] []
  | cons {front back : Bytes} {value : α} {values : List α} (head : piece front value)
      (tail : Listed piece back values) : Listed piece (front ++ back) (value :: values)

theorem Listed.append {piece : Bytes → α → Prop} (head : Listed piece front values)
    (tail : Listed piece back others) : Listed piece (front ++ back) (values ++ others) := by
  induction head with
  | nil => exact tail
  | cons here _ ih =>
    rw [List.append_assoc]
    exact Listed.cons here ih

theorem Listed.mono {piece other : Bytes → α → Prop} (listed : Listed piece bytes values)
    (implies : ∀ front, ∀ value ∈ values, piece front value → other front value) :
    Listed other bytes values := by
  induction listed with
  | nil => exact .nil
  | cons head _ ih =>
    refine .cons (implies _ _ (by simp) head) (ih fun front value member => ?_)
    exact implies front value (by simp [member])

/-- The bytes that a parser takes one value after the other. -/
abbrev Taken (parser : Parser ε α) : Bytes → List α → Prop := Listed (Accepts parser)

theorem Taken.accepts_times (taken : Taken parser front values) :
    Accepts (parser.times values.length) front values := by
  induction taken with
  | nil => exact accepts_pure []
  | @cons front back value values head _ ih =>
    exact head.bind (ih.last (accepts_pure (value :: values)))

theorem times_eq_done (isLocal : Local parser) (taken : parser.times count input = .done values rest) :
    values.length = count ∧ ∃ front, input = front ++ rest ∧ Taken parser front values := by
  induction count generalizing input values with
  | zero =>
    cases taken
    exact ⟨rfl, [], rfl, .nil⟩
  | succ count ih =>
    obtain ⟨value, middle, head, rest'⟩ := bind_eq_done.mp taken
    obtain ⟨others, last, tail, made⟩ := bind_eq_done.mp rest'
    cases made
    obtain ⟨front, rfl, accepts⟩ := isLocal head
    obtain ⟨rfl, back, rfl, listed⟩ := ih tail
    exact ⟨rfl, front ++ back, by simp, .cons accepts listed⟩

theorem Steady.times (steady : Steady parser) (count : ℕ) : Steady (parser.times count) := by
  induction count with
  | zero => exact Steady.pure []
  | succ count ih =>
    exact steady.bind fun first => ih.bind fun others => Steady.pure (first :: others)

/-- There is one way to take values as long as there is one to take. -/
theorem Taken.unique (taken : Taken parser front values) (again : Taken parser other others)
    (same : front ++ left = other ++ rest) (stopped : ∀ value after, parser left ≠ .done value after)
    (halted : ∀ value after, parser rest ≠ .done value after) : values = others ∧ left = rest := by
  induction taken generalizing other others with
  | nil =>
    cases again with
    | nil => exact ⟨rfl, same⟩
    | @cons front back value values accepts _ =>
      refine absurd ?_ (stopped value (back ++ rest))
      rw [List.nil_append] at same
      rw [same, List.append_assoc]
      exact accepts (back ++ rest)
  | @cons front back value values accepts tail ih =>
    have here := accepts (back ++ left)
    rw [← List.append_assoc, same] at here
    cases again with
    | nil => exact absurd here (halted value (back ++ left))
    | @cons otherFront otherBack other others otherAccepts otherTail =>
      rw [List.append_assoc, otherAccepts (otherBack ++ rest)] at here
      obtain ⟨rfl, behind⟩ := Outcome.done.inj here
      obtain ⟨rfl, rfl⟩ := ih otherTail behind.symm
      exact ⟨rfl, rfl⟩

/-! ## Skipping

The parser may take bytes without giving a value; they are skipped until one is there. -/

def Parser.skipFrom (parser : Parser ε (Option α)) : ℕ → Parser ε α
  | 0, _ => .more
  | turns + 1, input =>
    match parser input with
    | .done none rest => parser.skipFrom turns rest
    | .done (some value) rest => .done value rest
    | .more => .more
    | .fail error => .fail error

/-- As many turns as there are bytes are enough, since each takes one. -/
def Parser.skipping (parser : Parser ε (Option α)) : Parser ε α := fun input =>
  parser.skipFrom (input.length + 1) input

section Skipping

variable {parser : Parser ε (Option α)}

variable {input : Bytes}

theorem skipping_of_some (taken : parser input = .done (some value) rest) :
    parser.skipping input = .done value rest := by
  rw [Parser.skipping, Parser.skipFrom, taken]

theorem skipping_of_more (more : parser input = .more) : parser.skipping input = .more := by
  rw [Parser.skipping, Parser.skipFrom, more]

theorem skipping_of_fail (failed : parser input = .fail error) : parser.skipping input = .fail error := by
  rw [Parser.skipping, Parser.skipFrom, failed]

/-- A number of skips. -/
def Skipped (parser : Parser ε (Option α)) (bytes : Bytes) : Prop :=
  ∃ count, Taken parser bytes (List.replicate count none)

theorem Skipped.nil : Skipped parser [] := ⟨0, .nil⟩

theorem Skipped.cons (head : Accepts parser front none) (tail : Skipped parser back) :
    Skipped parser (front ++ back) := by
  obtain ⟨count, taken⟩ := tail
  exact ⟨count + 1, .cons head taken⟩

theorem Skipped.induct {motive : Bytes → Prop} (nil : motive [])
    (cons : ∀ front back, Accepts parser front none → motive back → motive (front ++ back))
    (skipped : Skipped parser bytes) : motive bytes := by
  obtain ⟨count, taken⟩ := skipped
  induction count generalizing bytes with
  | zero =>
    cases taken
    exact nil
  | succ count ih =>
    cases taken with
    | cons head tail => exact cons _ _ head (ih tail)

variable (isLocal : Local parser) (advances : Advances parser)
include advances

theorem skipFrom_eq (enough : input.length < turns) (alsoEnough : input.length < more) :
    parser.skipFrom turns input = parser.skipFrom more input := by
  induction turns generalizing more input with
  | zero => omega
  | succ turns ih =>
    obtain ⟨more, rfl⟩ : ∃ fewer, more = fewer + 1 := ⟨more - 1, by omega⟩
    cases answer : parser input with
    | more => simp only [Parser.skipFrom, answer]
    | fail error => simp only [Parser.skipFrom, answer]
    | done value rest =>
      have shorter := advances answer
      cases value with
      | some value => simp only [Parser.skipFrom, answer]
      | none =>
        simp only [Parser.skipFrom, answer]
        exact ih (by omega) (by omega)

theorem skipping_of_none (skipped : parser input = .done none rest) :
    parser.skipping input = parser.skipping rest := by
  have shorter := advances skipped
  change parser.skipFrom (input.length + 1) input = parser.skipFrom (rest.length + 1) rest
  rw [Parser.skipFrom, skipped]
  exact skipFrom_eq advances (by omega) (by omega)

theorem Skipped.skipping_append (skipped : Skipped parser bytes) (rest : Bytes) :
    parser.skipping (bytes ++ rest) = parser.skipping rest := by
  refine skipped.induct (motive := fun bytes => parser.skipping (bytes ++ rest) = parser.skipping rest) rfl ?_
  intro front back accepts same
  rw [List.append_assoc, skipping_of_none advances (accepts (back ++ rest)), same]

theorem accepts_skipping (isSkipped : Skipped parser skipped) (accepts : Accepts parser front (some value)) :
    Accepts parser.skipping (skipped ++ front) value := by
  intro rest
  rw [List.append_assoc, isSkipped.skipping_append advances]
  exact skipping_of_some (accepts rest)

include isLocal

/-- Skips are made up to the first bytes that are none. -/
theorem exists_skipped (input : Bytes) : ∃ skipped tail, input = skipped ++ tail ∧ Skipped parser skipped ∧
      ∀ rest, parser tail ≠ .done none rest := by
  induction length : input.length using Nat.strong_induction_on generalizing input with
  | _ length ih =>
    by_cases stops : ∀ rest, parser input ≠ .done none rest
    · exact ⟨[], input, rfl, .nil, stops⟩
    push Not at stops
    obtain ⟨rest, taken⟩ := stops
    have shorter := advances taken
    obtain ⟨front, rfl, accepts⟩ := isLocal taken
    obtain ⟨skipped, tail, rfl, isSkipped, stopped⟩ :=
      ih rest.length (by omega) rest rfl
    exact ⟨front ++ skipped, tail, by simp, .cons accepts isSkipped, stopped⟩

theorem skipping_eq_done (taken : parser.skipping input = .done value rest) :
    ∃ skipped front, input = skipped ++ front ++ rest ∧ Skipped parser skipped ∧
      Accepts parser front (some value) := by
  obtain ⟨skipped, tail, rfl, isSkipped, stopped⟩ := exists_skipped isLocal advances input
  rw [isSkipped.skipping_append advances] at taken
  cases answer : parser tail with
  | more => rw [skipping_of_more answer] at taken; cases taken
  | fail error => rw [skipping_of_fail answer] at taken; cases taken
  | done result after =>
    cases result with
    | none => exact absurd answer (stopped after)
    | some result =>
      rw [skipping_of_some answer] at taken
      cases taken
      obtain ⟨front, rfl, accepts⟩ := isLocal answer
      exact ⟨skipped, front, by simp, isSkipped, accepts⟩

theorem skipping_eq_fail (failed : parser.skipping input = .fail error) :
    ∃ skipped tail, input = skipped ++ tail ∧ Skipped parser skipped ∧
      parser tail = .fail error := by
  obtain ⟨skipped, tail, rfl, isSkipped, stopped⟩ := exists_skipped isLocal advances input
  rw [isSkipped.skipping_append advances] at failed
  cases answer : parser tail with
  | more => rw [skipping_of_more answer] at failed; cases failed
  | fail other =>
    rw [skipping_of_fail answer] at failed
    cases failed
    exact ⟨skipped, tail, rfl, isSkipped, answer⟩
  | done result after =>
    cases result with
    | none => exact absurd answer (stopped after)
    | some result => rw [skipping_of_some answer] at failed; cases failed

theorem Local.skipping : Local parser.skipping := by
  intro input value rest taken
  obtain ⟨skipped, front, rfl, isSkipped, accepts⟩ := skipping_eq_done isLocal advances taken
  exact ⟨skipped ++ front, rfl, accepts_skipping advances isSkipped accepts⟩

theorem Advances.skipping : Advances parser.skipping := by
  intro input value rest taken
  obtain ⟨skipped, front, rfl, _, accepts⟩ := skipping_eq_done isLocal advances taken
  have shorter := advances (accepts rest)
  simp only [List.length_append] at shorter ⊢
  omega

end Skipping

theorem Local.append (isLocal : Local parser) (taken : parser input = .done value rest)
    (later : Bytes) : parser (input ++ later) = .done value (rest ++ later) := by
  obtain ⟨front, rfl, accepts⟩ := isLocal taken
  rw [List.append_assoc]
  exact accepts (rest ++ later)

/-- Nothing less than the whole of what is taken is enough. -/
theorem Steady.more_of_short (steady : Steady parser) (accepts : Accepts parser front value)
    (starts : start <+: front) (short : start ≠ front) : parser start = .more := by
  obtain ⟨missing, rfl⟩ := starts
  have whole : parser (start ++ missing) = .done value [] := by
    simpa using accepts []
  cases answer : parser start with
  | more => rfl
  | fail error =>
    rw [steady.firm start error answer missing] at whole
    cases whole
  | done other rest =>
    rw [steady.isLocal.append answer missing] at whole
    cases rest <;> cases missing <;> simp_all

/-- The parsers answer alike when fewer bytes than a bound are there. -/
def AgreeBelow (bound : ℕ) (parser other : Parser ε α) : Prop :=
  ∀ input, input.length < bound → parser input = other input

namespace AgreeBelow

variable {bound : ℕ} {other : Parser ε α} {another : α → Parser ε β}

theorem refl (parser : Parser ε α) : AgreeBelow bound parser parser := fun _ _ => rfl

theorem bind_next (isLocal : Local first) (agree : ∀ value, AgreeBelow bound (next value) (another value)) :
    AgreeBelow bound (first >>= next) (first >>= another) := by
  intro input short
  change Parser.bind first next input = Parser.bind first another input
  unfold Parser.bind
  cases taken : first input with
  | more => rfl
  | fail error => rfl
  | done value rest => exact agree value rest (lt_of_le_of_lt (isLocal.length_le taken) short)

theorem byte_bind {next another : UInt8 → Parser ε α}
    (agree : ∀ byte, AgreeBelow bound (next byte) (another byte)) :
    AgreeBelow (bound + 1) (Parser.byte >>= next) (Parser.byte >>= another) := by
  intro input short
  cases input with
  | nil => rfl
  | cons byte rest => exact agree byte rest (by simpa using short)

theorem ite (condition : Prop) [Decidable condition] (yes : AgreeBelow bound parser left)
    (no : AgreeBelow bound other right) :
    AgreeBelow bound (if condition then parser else other) (if condition then left else right) := by
  split_ifs
  · exact yes
  · exact no

theorem bind_first (agree : AgreeBelow bound parser other) :
    AgreeBelow bound (parser >>= next) (other >>= next) := by
  intro input short
  change Parser.bind parser next input = Parser.bind other next input
  rw [Parser.bind, Parser.bind, agree input short]

theorem times (isLocal : Local other) (agree : AgreeBelow bound parser other) (count : ℕ) :
    AgreeBelow bound (parser.times count) (other.times count) := by
  induction count with
  | zero => exact refl _
  | succ count ih =>
    intro input short
    refine (agree.bind_first input short).trans ?_
    exact bind_next isLocal (fun value => ih.bind_first) input short

end AgreeBelow

/-! ## Streams

A stream keeps the bytes it could not parse yet, and stops at the first failure. -/

structure Intake (ε α : Type) where
  values : List α
  buffer : Bytes
  error : Option ε
deriving DecidableEq

def Intake.start : Intake ε α where
  values := []
  buffer := []
  error := none

/-- All the values there are, and the bytes behind them. -/
def Parser.drain (parser : Parser ε α) : ℕ → Bytes → List α × Bytes
  | 0, input => ([], input)
  | turns + 1, input =>
    match parser input with
    | .done value rest =>
      let (values, left) := parser.drain turns rest
      (value :: values, left)
    | .more => ([], input)
    | .fail _ => ([], input)

def Outcome.error? : Outcome ε α → Option ε
  | .fail error => some error
  | _ => none

def Intake.feed (parser : Parser ε α) (intake : Intake ε α) (chunk : Bytes) : Intake ε α :=
  match intake.error with
  | some _ => intake
  | none =>
    let received := intake.buffer ++ chunk
    let (values, left) := parser.drain (received.length + 1) received
    { values := intake.values ++ values, buffer := left, error := (parser left).error? }

theorem drain_spec (isLocal : Local parser) (advances : Advances parser) (enough : input.length < turns) :
    ∃ front, input = front ++ (parser.drain turns input).2 ∧
      Taken parser front (parser.drain turns input).1 ∧
      ∀ value rest, parser (parser.drain turns input).2 ≠ .done value rest := by
  induction turns generalizing input with
  | zero => omega
  | succ turns ih =>
    cases answer : parser input with
    | more =>
      simp only [Parser.drain, answer]
      exact ⟨[], rfl, .nil, by simp⟩
    | fail error =>
      simp only [Parser.drain, answer]
      exact ⟨[], rfl, .nil, by simp⟩
    | done value rest =>
      have shorter := advances answer
      obtain ⟨front, split, taken, stopped⟩ := @ih rest (by omega)
      obtain ⟨head, rfl, accepts⟩ := isLocal answer
      simp only [Parser.drain, answer]
      refine ⟨head ++ front, ?_, .cons accepts taken, stopped⟩
      rw [List.append_assoc, ← split]

/-- What a stream holds of the bytes received: their values, and behind them bytes that are no
value, with a failure on them that nothing received later takes back. -/
def Intake.Holds (parser : Parser ε α) (intake : Intake ε α) (received : Bytes) : Prop :=
  ∃ front left, received = front ++ left ∧ Taken parser front intake.values ∧
    (∀ value rest, parser left ≠ .done value rest) ∧ (parser left).error? = intake.error ∧
    (intake.error = none → intake.buffer = left) ∧ FirmAt parser left

/-- The failures on what is left of these bytes after any number of values are firm. -/
def FirmBehind (parser : Parser ε α) (received : Bytes) : Prop :=
  ∀ front left values, received = front ++ left → Taken parser front values → FirmAt parser left

theorem Intake.Holds.feed {intake : Intake ε α} {received : Bytes} (isLocal : Local parser)
    (advances : Advances parser) (holds : intake.Holds parser received) (chunk : Bytes)
    (firm : FirmBehind parser (received ++ chunk)) :
    (intake.feed parser chunk).Holds parser (received ++ chunk) := by
  obtain ⟨front, left, rfl, taken, stopped, errorEq, bufferEq, firmLeft⟩ := holds
  cases failure : intake.error with
  | some error =>
    -- the connection is closed: the chunk is not looked at
    have failed : parser left = .fail error := by
      cases answer : parser left <;> simp_all [Outcome.error?]
    have later := firmLeft error failed chunk
    have unchanged : intake.feed parser chunk = intake := by simp only [Intake.feed, failure]
    rw [unchanged]
    refine ⟨front, left ++ chunk, by simp, taken, by simp [later], ?_, by simp [failure], ?_⟩
    · rw [later, failure]
      rfl
    · exact firm front (left ++ chunk) _ (by simp) taken
  | none =>
    obtain rfl := bufferEq failure
    obtain ⟨more, split, drained, halted⟩ := drain_spec isLocal advances
      (show (intake.buffer ++ chunk).length < (intake.buffer ++ chunk).length + 1 by omega)
    have whole : front ++ intake.buffer ++ chunk =
        (front ++ more) ++ (parser.drain ((intake.buffer ++ chunk).length + 1)
          (intake.buffer ++ chunk)).2 := by
      rw [List.append_assoc, List.append_assoc, ← split]
    simp only [Intake.feed, failure]
    exact ⟨_, _, whole, Listed.append taken drained, halted, rfl, fun _ => rfl,
      firm _ _ _ whole (Listed.append taken drained)⟩

/-- A stream holds what was received, chunk by chunk, as far as the failures are firm. -/
theorem Intake.Holds.run {intake : Intake ε α} {received : Bytes} (isLocal : Local parser)
    (advances : Advances parser) (holds : intake.Holds parser received) (chunks : List Bytes)
    (firm : ∀ count, FirmBehind parser (received ++ (chunks.take count).flatten)) :
    (chunks.foldl (Intake.feed parser) intake).Holds parser (received ++ chunks.flatten) := by
  induction chunks generalizing intake received with
  | nil => simpa using holds
  | cons chunk chunks ih =>
    have fed := holds.feed isLocal advances chunk (by simpa using firm 1)
    have rest := ih fed fun count => by simpa using firm (count + 1)
    simpa using rest

/-- The bytes received decide what a stream holds. -/
theorem Intake.Holds.unique {intake other : Intake ε α} {received : Bytes}
    (holds : intake.Holds parser received) (otherHolds : other.Holds parser received) :
    intake.values = other.values ∧ intake.error = other.error := by
  obtain ⟨front, left, rfl, taken, stopped, errorEq, -⟩ := holds
  obtain ⟨otherFront, otherLeft, same, otherTaken, otherStopped, otherErrorEq, -⟩ :=
    otherHolds
  obtain ⟨valuesEq, rfl⟩ := taken.unique otherTaken same stopped otherStopped
  exact ⟨valuesEq, errorEq.symm.trans otherErrorEq⟩

theorem Intake.holds_start (empty : parser [] = .more) : (Intake.start : Intake ε α).Holds parser [] := by
  refine ⟨[], [], rfl, .nil, by simp [empty], by simp [empty, Outcome.error?, Intake.start], fun _ => rfl, ?_⟩
  intro error failed
  rw [empty] at failed
  cases failed

end IronCache.Incremental
