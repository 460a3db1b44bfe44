import IronCache.Lib.Bytes

/-!
# Glob patterns

`glob_match` of `ironcache-server/src/glob.rs` and the language it decides. An index of the source is
the rest of the pattern or of the string from there on.
-/

namespace IronCache.Serve.Glob

open List

inductive ClassItem where
  | member (byte : UInt8)
  | range (first last : UInt8)

/-- A range may be written from either end. -/
def ClassItem.accepts (byte : UInt8) : ClassItem → Bool
  | .member own => own == byte
  | .range first last => first ≤ byte && byte ≤ last || last ≤ byte && byte ≤ first

def classItem (first : UInt8) : Bytes → ClassItem × Bytes
  | [] => (.member first, [])
  | [second] => if first = 92 then (.member second, []) else (.member first, [second])
  | second :: third :: rest =>
    if first = 92 then (.member second, third :: rest)
    else if second = 45 then (.range first third, rest)
    else (.member first, second :: third :: rest)

theorem length_classItem : (classItem first rest).2.length ≤ rest.length := by
  unfold classItem
  split
  · rfl
  · split_ifs <;> simp
  · split_ifs <;> simp
    omega

/-- The items of a class, which runs to its bracket or to the end of the pattern. -/
def classItems : Bytes → List ClassItem × Bytes
  | [] => ([], [])
  | first :: rest =>
    if first = 93 then ([], rest)
    else
      ((classItem first rest).1 :: (classItems (classItem first rest).2).1,
        (classItems (classItem first rest).2).2)
termination_by pattern => pattern.length
decreasing_by all_goals exact Nat.lt_succ_of_le length_classItem

inductive Single where
  | any
  | cls (negate : Bool) (items : List ClassItem)
  | literal (byte : UInt8)

def Single.accepts (byte : UInt8) : Single → Bool
  | .any => true
  | .cls negate items => items.any (·.accepts byte) ^^ negate
  | .literal own => byte == own

def readOne (first : UInt8) (rest : Bytes) : Single × Bytes :=
  if first = 63 then (.any, rest)
  else if first = 91 then
    if rest.head? = some 94 then
      (.cls true (classItems rest.tail).1, (classItems rest.tail).2)
    else (.cls false (classItems rest).1, (classItems rest).2)
  else if first = 92 ∧ rest ≠ [] then (.literal rest.headI, rest.tail)
  else (.literal first, rest)

private theorem length_classItems : (classItems pattern).2.length ≤ pattern.length := by
  fun_induction classItems pattern with
  | case1 => rfl
  | case2 rest => exact Nat.le_succ _
  | case3 first rest _ ih =>
    exact (ih.trans length_classItem).trans (Nat.le_succ _)

theorem length_readOne (first : UInt8) (rest : Bytes) : (readOne first rest).2.length ≤ rest.length := by
  unfold readOne
  split_ifs
  · rfl
  · exact length_classItems.trans (by simp)
  · exact length_classItems
  · simp
  · rfl

inductive Element where
  | star
  | one (single : Single)

/-- A pattern read from left to right. -/
def elements : Bytes → List Element
  | [] => []
  | first :: rest =>
    if first = 42 then .star :: elements rest
    else .one (readOne first rest).1 :: elements (readOne first rest).2
termination_by pattern => pattern.length
decreasing_by
  · exact Nat.lt_succ_self _
  · exact Nat.lt_succ_of_le (length_readOne first rest)

def Element.Takes : Element → Bytes → Prop
  | .star, _ => True
  | .one single, piece => ∃ byte, piece = [byte] ∧ single.accepts byte

/-- The string cut into consecutive pieces, one for each element. -/
def Cuts (elements : List Element) (string : Bytes) : Prop :=
  ∃ pieces, Forall₂ Element.Takes elements pieces ∧ pieces.flatten = string

section Cuts

variable {rest : List Element} {string taken : Bytes} {single : Single} {singles : List Single}

theorem cuts_nil : Cuts [] string ↔ string = [] := by
  simp [Cuts, eq_comm]

theorem cuts_star : Cuts (.star :: rest) string ↔ ∃ back, back <:+ string ∧ Cuts rest back := by
  constructor
  · rintro ⟨_, _ | ⟨-, others⟩, rfl⟩
    exact ⟨_, suffix_append _ _, _, others, rfl⟩
  · rintro ⟨back, ⟨front, rfl⟩, pieces, takes, rfl⟩
    exact ⟨front :: pieces, .cons trivial takes, rfl⟩

theorem cuts_one : Cuts (.one single :: rest) string ↔
    ∃ byte back, string = byte :: back ∧ single.accepts byte ∧ Cuts rest back := by
  constructor
  · rintro ⟨_, _ | ⟨⟨byte, rfl, accepted⟩, others⟩, rfl⟩
    exact ⟨byte, _, rfl, accepted, _, others, rfl⟩
  · rintro ⟨byte, back, rfl, accepted, pieces, takes, rfl⟩
    exact ⟨[byte] :: pieces, .cons ⟨byte, rfl, accepted⟩ takes, rfl⟩

theorem cuts_accepted (accepted : Forall₂ (fun single byte => single.accepts byte) singles taken) :
    Cuts (singles.map .one ++ rest) (taken ++ string) ↔ Cuts rest string := by
  induction accepted with
  | nil => rfl
  | cons first _ ih =>
    rw [map_cons, cons_append, cons_append, cuts_one, ← ih]
    constructor
    · rintro ⟨_, _, same, -, others⟩
      cases same
      exact others
    · exact fun others => ⟨_, _, rfl, first, others⟩

private theorem length_of_cuts (cuts : Cuts (singles.map .one ++ rest) string) :
    ∃ front back, string = front ++ back ∧ front.length = singles.length ∧ Cuts rest back := by
  induction singles generalizing string with
  | nil => exact ⟨[], string, rfl, rfl, cuts⟩
  | cons single singles ih =>
    obtain ⟨byte, back, rfl, -, others⟩ := cuts_one.mp cuts
    obtain ⟨front, back, rfl, length, others⟩ := ih others
    exact ⟨byte :: front, back, rfl, congrArg (· + 1) length, others⟩

/-- Wherever the star before them stops, the single bytes end no earlier than where they did: an
earlier star never has to be revisited. -/
theorem suffix_of_cuts (accepted : Forall₂ (fun single byte => single.accepts byte) singles taken)
    (cuts : Cuts (.star :: (singles.map .one ++ rest)) (taken ++ string)) :
    ∃ back, back <:+ string ∧ Cuts rest back := by
  obtain ⟨behind, suffix, others⟩ := cuts_star.mp cuts
  obtain ⟨front, back, rfl, length, last⟩ := length_of_cuts others
  have whole : back <:+ taken ++ string := (suffix_append front back).trans suffix
  have bound := suffix.length_le
  rw [length_append, length_append, length, accepted.length_eq] at bound
  exact ⟨back, suffix_of_suffix_length_le whole (suffix_append _ _) (by omega), last⟩

private theorem cuts_elements_nil : Cuts (elements pattern) [] ↔ (pattern.dropWhile (· == 42)).isEmpty := by
  induction pattern with
  | nil => simp [elements, cuts_nil]
  | cons first rest ih =>
    rw [elements]
    split_ifs with star
    · simp [cuts_star, ih, star]
    · simp [cuts_one, star]

end Cuts

/-- One turn of the loop over a class: the comparison it makes, and where it goes on. -/
def classStep (sb first : UInt8) : Bytes → Bool × Bytes
  | [] => (first == sb, [])
  | [second] => if first = 92 then (second == sb, []) else (first == sb, [second])
  | second :: third :: rest =>
    if first = 92 then (second == sb, third :: rest)
    else if second = 45 then
      (if third < first then third ≤ sb && sb ≤ first else first ≤ sb && sb ≤ third, rest)
    else (first == sb, second :: third :: rest)

theorem classStep_eq :
    classStep sb first rest = ((classItem first rest).1.accepts sb, (classItem first rest).2) := by
  rcases rest with _ | ⟨second, _ | ⟨third, rest⟩⟩
  · rfl
  · unfold classStep classItem
    split_ifs <;> rfl
  · unfold classStep classItem
    split_ifs with escaped
    · rfl
    · simp only [ClassItem.accepts, UInt8.le_iff_toNat_le, UInt8.lt_iff_toNat_lt]
      grind

def classLoop (sb : UInt8) (matched : Bool) : Bytes → Bool × Bytes
  | [] => (matched, [])
  | first :: rest =>
    if first = 93 then (matched, rest)
    else classLoop sb (matched || (classStep sb first rest).1) (classStep sb first rest).2
termination_by pattern => pattern.length
decreasing_by
  rw [classStep_eq]
  exact Nat.lt_succ_of_le length_classItem

/-- `match_one`: whether the element in front accepts the byte, and the pattern behind it. -/
def matchOne (sb first : UInt8) (rest : Bytes) : Bool × Bytes :=
  if first = 63 then (true, rest)
  else if first = 91 then
    if rest.head? = some 94 then
      (!(classLoop sb false rest.tail).1, (classLoop sb false rest.tail).2)
    else classLoop sb false rest
  else if first = 92 ∧ rest ≠ [] then (sb == rest.headI, rest.tail)
  else (sb == first, rest)

private theorem classLoop_eq : classLoop sb matched pattern =
      (matched || (classItems pattern).1.any (·.accepts sb), (classItems pattern).2) := by
  fun_induction classLoop sb matched pattern with
  | case1 matched => simp [classItems]
  | case2 matched rest => simp [classItems]
  | case3 matched first rest open' ih =>
    rw [classItems, if_neg open', ih, classStep_eq]
    simp [Bool.or_assoc]

/-- Which bytes of the pattern an element takes does not depend on the byte tried. -/
theorem matchOne_eq :
    matchOne sb first rest = ((readOne first rest).1.accepts sb, (readOne first rest).2) := by
  unfold matchOne readOne
  split_ifs
  · rfl
  · simp [classLoop_eq, Single.accepts]
  · simp [classLoop_eq, Single.accepts]
  · rfl
  · rfl

structure Walk where
  pattern : Bytes
  string : Bytes
  /-- The pattern behind the last star, and the string from where the star stops. -/
  star : Option (Bytes × Bytes)

namespace Walk

/-- The last star takes one byte more. -/
def backtrack : Option (Bytes × Bytes) → Bool ⊕ Walk
  | some (pattern, _ :: string) => .inr { pattern, string, star := some (pattern, string) }
  | _ => .inl false

/-- One turn of the loop of `glob_match`: an answer, or the next indexes. -/
def step : Walk → Bool ⊕ Walk
  | ⟨pattern, [], _⟩ => .inl (pattern.dropWhile (· == 42)).isEmpty
  | ⟨[], _ :: _, star⟩ => backtrack star
  | ⟨first :: rest, sb :: string, star⟩ =>
    if first = 42 then
      .inr { pattern := rest, string := sb :: string, star := some (rest, sb :: string) }
    else if (matchOne sb first rest).1 then
      .inr { pattern := (matchOne sb first rest).2, string, star }
    else backtrack star

/-- The walk is never before its last star. -/
def Within (walk : Walk) : Prop :=
  ∀ back ∈ walk.star, walk.pattern.length ≤ back.1.length ∧ walk.string.length ≤ back.2.length

/-- What a turn lowers: the pattern behind the last star, the string from it, the string. -/
def rank (walk : Walk) : ℕ × ℕ × ℕ :=
  (walk.star.elim (walk.pattern.length + 1) (·.1.length), walk.star.elim 0 (·.2.length), walk.string.length)

end Walk

/-- What a walk knows: the single bytes behind the last star were accepted, and the pattern from
that star on decides the match. -/
def Tracks (goal : Prop) : Walk → Prop
  | ⟨pattern, string, none⟩ => goal ↔ Cuts (elements pattern) string
  | ⟨pattern, string, some (behind, start)⟩ =>
    (goal ↔ Cuts (.star :: elements behind) start) ∧
      ∃ singles taken, Forall₂ (fun single byte => single.accepts byte) singles taken ∧
        elements behind = singles.map .one ++ elements pattern ∧ start = taken ++ string

/-- What a turn comes to: the answer, or a walk that knows as much. -/
def Leads (goal : Prop) : Bool ⊕ Walk → Prop
  | .inl answer => answer ↔ goal
  | .inr next => Tracks goal next

variable {goal : Prop} {pattern string rest : Bytes} {star : Option (Bytes × Bytes)}

private theorem leads_backtrack (tracks : Tracks goal ⟨pattern, sb :: string, star⟩)
    (stuck : ¬ Cuts (elements pattern) (sb :: string)) : Leads goal (Walk.backtrack star) := by
  rcases star with _ | ⟨behind, start⟩
  · simpa [Leads, Walk.backtrack, Tracks, stuck] using tracks
  obtain ⟨decides, singles, taken, accepted, read, rfl⟩ := tracks
  cases held : taken ++ sb :: string with
  | nil => simp at held
  | cons byte later =>
    refine ⟨decides.trans ?_, [], [], .nil, rfl, rfl⟩
    rw [cuts_star, cuts_star, held]
    constructor
    · rintro ⟨back, suffix, cuts⟩
      rcases suffix_cons_iff.mp suffix with rfl | suffix
      · rw [← held, read, cuts_accepted accepted] at cuts
        exact absurd cuts stuck
      · exact ⟨back, suffix, cuts⟩
    · rintro ⟨back, suffix, cuts⟩
      exact ⟨back, suffix.trans (suffix_cons byte later), cuts⟩

private theorem leads_star (tracks : Tracks goal ⟨42 :: rest, string, star⟩) :
    Tracks goal ⟨rest, string, some (rest, string)⟩ := by
  have read : elements (42 :: rest) = .star :: elements rest := by rw [elements, if_pos rfl]
  refine ⟨?_, [], [], .nil, rfl, rfl⟩
  rcases star with _ | ⟨behind, start⟩
  · exact read ▸ tracks
  obtain ⟨decides, singles, taken, accepted, same, rfl⟩ := tracks
  rw [decides, same, read]
  constructor
  · intro cuts
    obtain ⟨back, suffix, others⟩ := suffix_of_cuts accepted cuts
    obtain ⟨last, behind, others⟩ := cuts_star.mp others
    exact cuts_star.mpr ⟨last, behind.trans suffix, others⟩
  · exact fun cuts => cuts_star.mpr ⟨_, suffix_rfl, (cuts_accepted accepted).mpr cuts⟩

private theorem leads_match (ordinary : first ≠ 42) (matched : (readOne first rest).1.accepts sb)
    (tracks : Tracks goal ⟨first :: rest, sb :: string, star⟩) :
    Tracks goal ⟨(readOne first rest).2, string, star⟩ := by
  have read : elements (first :: rest) =
      [(readOne first rest).1].map .one ++ elements (readOne first rest).2 := by
    rw [elements, if_neg ordinary]
    rfl
  have one : Forall₂ (fun single byte => single.accepts byte) [(readOne first rest).1] [sb] :=
    .cons matched .nil
  rcases star with _ | ⟨behind, start⟩
  · refine tracks.trans ?_
    rw [read]
    exact cuts_accepted one
  obtain ⟨decides, singles, taken, accepted, same, rfl⟩ := tracks
  refine ⟨decides, singles ++ _, taken ++ [sb], rel_append accepted one, ?_, by simp⟩
  rw [same, read, map_append, append_assoc]

private theorem leads_step (tracks : Tracks goal walk) : Leads goal walk.step := by
  obtain ⟨pattern, _ | ⟨sb, string⟩, star⟩ := walk
  · change _ ↔ goal
    rw [← cuts_elements_nil]
    rcases star with _ | ⟨behind, start⟩
    · exact tracks.symm
    obtain ⟨decides, singles, taken, accepted, same, rfl⟩ := tracks
    rw [decides, same]
    constructor
    · exact fun cuts => cuts_star.mpr ⟨_, suffix_rfl, (cuts_accepted accepted).mpr cuts⟩
    · intro cuts
      obtain ⟨back, suffix, others⟩ := suffix_of_cuts accepted cuts
      exact suffix_nil.mp suffix ▸ others
  cases pattern with
  | nil => exact leads_backtrack tracks (by simp [elements, cuts_nil])
  | cons first rest =>
    simp only [Walk.step, matchOne_eq]
    split_ifs with starred matched
    · subst starred
      exact leads_star tracks
    · exact leads_match starred matched tracks
    · refine leads_backtrack tracks ?_
      rw [elements, if_neg starred, cuts_one]
      rintro ⟨_, _, same, accepted, -⟩
      cases same
      exact matched accepted

namespace Walk

variable {walk next : Walk}

private theorem within_backtrack (turn : backtrack star = .inr next) :
    next.Within ∧ Prod.Lex (· < ·) (Prod.Lex (· < ·) (· < ·)) next.rank
      (Walk.mk pattern string star).rank := by
  rcases star with _ | ⟨behind, _ | ⟨byte, start⟩⟩
  · cases turn
  · cases turn
  · cases turn
    refine ⟨?_, .right _ (.left _ _ (Nat.lt_succ_self _))⟩
    rintro _ ⟨⟩
    exact ⟨le_rfl, le_rfl⟩

theorem Within.step (within : walk.Within) (turn : walk.step = .inr next) :
    next.Within ∧ Prod.Lex (· < ·) (Prod.Lex (· < ·) (· < ·)) next.rank walk.rank := by
  obtain ⟨pattern, _ | ⟨sb, string⟩, star⟩ := walk
  · cases turn
  cases pattern with
  | nil => exact within_backtrack turn
  | cons first rest =>
    simp only [Walk.step, matchOne_eq] at turn
    have shorter := length_readOne first rest
    split_ifs at turn with starred matched
    · cases turn
      refine ⟨?_, .left _ _ ?_⟩
      · rintro _ ⟨⟩
        exact ⟨le_rfl, le_rfl⟩
      · rcases star with _ | back
        · simp
        · exact (within _ rfl).1
    · cases turn
      rcases star with _ | back
      · exact ⟨nofun, .left _ _ (by simpa using shorter)⟩
      refine ⟨?_, .right _ (.right _ (Nat.lt_succ_self _))⟩
      rintro _ ⟨⟩
      have before := within _ rfl
      simp only [length_cons] at before ⊢
      exact ⟨by omega, by omega⟩
    · exact within_backtrack turn

end Walk

def globLoop (walk : { walk : Walk // walk.Within }) : Bool :=
  match turn : walk.1.step with
  | .inl answer => answer
  | .inr next => globLoop ⟨next, (walk.2.step turn).1⟩
termination_by walk.1.rank
decreasing_by exact (walk.2.step turn).2

def globMatch (pattern string : Bytes) : Bool := globLoop ⟨⟨pattern, string, none⟩, nofun⟩

private theorem globLoop_iff (walk : { walk : Walk // walk.Within }) (tracks : Tracks goal walk.1) :
    globLoop walk ↔ goal := by
  fun_induction globLoop walk with
  | case1 walk answer turn =>
    have led := leads_step tracks
    rw [turn] at led
    exact led
  | case2 walk next turn ih =>
    have led := leads_step tracks
    rw [turn] at led
    exact ih led

/-- `glob_match` decides the language of the pattern. -/
theorem globMatch_iff (pattern string : Bytes) :
    globMatch pattern string ↔ Cuts (elements pattern) string := globLoop_iff _ Iff.rfl

end IronCache.Serve.Glob
