import IronCache.Lib.OrdMap
import IronCache.Store.ListVal
import Mathlib.Data.Prod.Lex

/-!
# Sorted-set values

`ZSetVal` of `ironcache-store/src/kvobj.rs`. Scores are the bits of a machine float under
`total_cmp`; the addition is a parameter.
-/

namespace IronCache.Store

open List
open OrdSet

/-- A double, by its bits. -/
structure F64 where
  bits : UInt64
deriving DecidableEq

namespace F64

/-- The rank of a float under `total_cmp`: negative ones run backwards below the others. -/
def totalRank (score : F64) : ℕ :=
  if score.bits.toNat < 2 ^ 63 then score.bits.toNat + 2 ^ 63 else 2 ^ 64 - 1 - score.bits.toNat

private theorem totalRank_injective : Function.Injective totalRank := by
  rintro ⟨left⟩ ⟨right⟩ same
  have leftFits := left.toNat_lt
  have rightFits := right.toNat_lt
  have bits : left.toNat = right.toNat := by
    unfold totalRank at same
    dsimp only at same
    split_ifs at same <;> omega
  rw [UInt64.toNat_inj.mp bits]

instance : LinearOrder F64 := LinearOrder.lift' totalRank totalRank_injective

def isNan (score : F64) : Bool := 0x7FF0000000000000 < score.bits &&& 0x7FFFFFFFFFFFFFFF

def isZero (score : F64) : Bool := score.bits &&& 0x7FFFFFFFFFFFFFFF == 0

/-- The comparison of doubles, where a NaN is below nothing. -/
def below (left right : F64) : Bool :=
  !left.isNan && !right.isNan && !(left.isZero && right.isZero) && decide (left < right)

/-- The two zeros are equal. -/
def equal (left right : F64) : Bool :=
  !left.isNan && !right.isNan && (left.isZero && right.isZero || decide (left = right))

def atMost (left right : F64) : Bool := left.below right || left.equal right

end F64

/-- A small set is a list in rank order; a large one keeps an index beside its scores. -/
inductive ZSetVal where
  | listPack (entries : List (Bytes × F64))
  | skipList (index : OrdSet (F64 ×ₗ Bytes)) (scores : OrdMap Bytes F64)
deriving DecidableEq

/-- The options of `ZADD`. -/
structure ZAddFlags where
  nx : Bool := false
  xx : Bool := false
  gt : Bool := false
  lt : Bool := false

/-- An end of a range of scores. -/
structure ScoreBound where
  score : F64
  inclusive : Bool

def ScoreBound.allowsMin (bound : ScoreBound) (score : F64) : Bool :=
  if bound.inclusive then bound.score.atMost score else bound.score.below score

def ScoreBound.allowsMax (bound : ScoreBound) (score : F64) : Bool :=
  if bound.inclusive then score.atMost bound.score else score.below bound.score

/-- An end of a range of members. -/
inductive LexBound where
  | negInf
  | posInf
  | inclusive (member : Bytes)
  | exclusive (member : Bytes)

def LexBound.allowsMin (member : Bytes) : LexBound → Bool
  | .negInf => true
  | .posInf => false
  | .inclusive bound => bound ≤ member
  | .exclusive bound => bound < member

def LexBound.allowsMax (member : Bytes) : LexBound → Bool
  | .negInf => false
  | .posInf => true
  | .inclusive bound => member ≤ bound
  | .exclusive bound => member < bound

/-- How an increment ended. -/
inductive IncrOutcome where
  | updated (score : F64)
  | suppressed
  | nan
deriving DecidableEq

namespace ZSetVal

def new : ZSetVal := .listPack []

/-- The key by which entries are ordered: score, then member. -/
def rankKey (entry : Bytes × F64) : F64 ×ₗ Bytes := toLex (entry.2, entry.1)

def ofRankKey (key : F64 ×ₗ Bytes) : Bytes × F64 := ((ofLex key).2, (ofLex key).1)

/-- What the accounting counts. -/
def elementBytes : ZSetVal → ℕ
  | .listPack entries => (entries.map fun entry => entry.1.length + 8).sum
  | .skipList _ scores => (scores.toList.map fun entry => entry.1.length + 8).sum

def encoding : ZSetVal → Encoding
  | .listPack _ => .listPack
  | .skipList _ _ => .skipList

def len : ZSetVal → ℕ
  | .listPack entries => entries.length
  | .skipList _ scores => scores.toList.length

def score (member : Bytes) : ZSetVal → Option F64
  | .listPack entries => entries.lookup member
  | .skipList _ scores => scores.get? member

/-- The members in rank order. -/
def ordered : ZSetVal → List (Bytes × F64)
  | .listPack entries => entries
  | .skipList index _ => index.toList.map ofRankKey

/-- Whether the list has outgrown its encoding. -/
def listpackOverflows (entries memberLen : ℕ) (thresholds : EncodingThresholds) : Bool :=
  thresholds.zsetMaxListpackEntries < entries || thresholds.zsetMaxListpackValue < memberLen

/-- A set does not go back to the list. -/
def convertToSkiplist : ZSetVal → ZSetVal
  | .listPack entries =>
    .skipList (.ofList (entries.map rankKey)) ((∅ : OrdMap Bytes F64).insertAll entries)
  | .skipList index scores => .skipList index scores

def forceLargeEncoding : ZSetVal → ZSetVal := convertToSkiplist

def listpackInsertSorted (entries : List (Bytes × F64)) (member : Bytes) (score : F64) : List (Bytes × F64) :=
  entries.orderedInsert (fun left right => rankKey left ≤ rankKey right) (member, score)

/-- Gives a member a score, whether it is new or not. -/
def put (member : Bytes) (score : F64) (thresholds : EncodingThresholds) : ZSetVal → ZSetVal
  | .listPack entries =>
    let rest := entries.eraseP (·.1 == member)
    let written := listpackInsertSorted rest member score
    if listpackOverflows written.length member.length thresholds then
      convertToSkiplist (.listPack written)
    else .listPack written
  | .skipList index scores =>
    let rest := match scores.get? member with
      | some old => index.erase (toLex (old, member))
      | none => index
    .skipList (rest.insert (toLex (score, member))) (scores.insert member score)

/-- Whether a score may replace another under the GT and LT flags. -/
def gatePasses (current next : F64) (flags : ZAddFlags) : Bool :=
  if flags.gt then current.below next else if flags.lt then next.below current else true

/-- What `ZADD` did to one member. -/
structure ZAddOutcome where
  added : Bool
  changed : Bool
  newScore : Option F64
deriving DecidableEq

/-- The conditions of the flags come before the write. -/
def add (member : Bytes) (score : F64) (flags : ZAddFlags) (thresholds : EncodingThresholds)
    (zset : ZSetVal) : ZAddOutcome × ZSetVal :=
  match zset.score member with
  | none =>
    if flags.xx then (⟨false, false, none⟩, zset)
    else (⟨true, true, some score⟩, zset.put member score thresholds)
  | some current =>
    if flags.nx || !gatePasses current score flags then (⟨false, false, some current⟩, zset)
    else
      let changed := !score.equal current
      (⟨false, changed, some score⟩, if changed then zset.put member score thresholds else zset)

/-- Adds to a member's score, with the machine's float addition. -/
def incr (plus : F64 → F64 → F64) (member : Bytes) (delta : F64) (flags : ZAddFlags)
    (thresholds : EncodingThresholds) (zset : ZSetVal) : IncrOutcome × ZSetVal :=
  match zset.score member with
  | none =>
    if flags.xx then (.suppressed, zset)
    else if delta.isNan then (.nan, zset)
    else (.updated delta, zset.put member delta thresholds)
  | some current =>
    if flags.nx then (.suppressed, zset)
    else
      let next := plus current delta
      if next.isNan then (.nan, zset)
      else if !gatePasses current next flags then (.suppressed, zset)
      else (.updated next, zset.put member next thresholds)

def remove (member : Bytes) (zset : ZSetVal) : Bool × ZSetVal :=
  match zset with
  | .listPack entries =>
    ((entries.lookup member).isSome, .listPack (entries.eraseP (·.1 == member)))
  | .skipList index scores =>
    match scores.get? member with
    | some old => (true, .skipList (index.erase (toLex (old, member))) (scores.erase member))
    | none => (false, zset)

def removeAll (victims : List Bytes) (zset : ZSetVal) : ZSetVal :=
  victims.foldl (fun rest member => (rest.remove member).2) zset

def popMin (count : ℕ) (zset : ZSetVal) : List (Bytes × F64) × ZSetVal :=
  let popped := zset.ordered.take count
  (popped, zset.removeAll (popped.map Prod.fst))

/-- From the highest rank down. -/
def popMax (count : ℕ) (zset : ZSetVal) : List (Bytes × F64) × ZSetVal :=
  let popped := zset.ordered.reverse.take count
  (popped, zset.removeAll (popped.map Prod.fst))

/-- Negative ranks count from the end; the range is clipped to the set. -/
def resolveRankRange (len : ℕ) (start stop : ℤ) : ℕ × ℕ :=
  if len = 0 then (0, 0)
  else
    let first := max (if start < 0 then start + len else start) 0
    let last := min (if stop < 0 then stop + len else stop) (len - 1)
    if last < first ∨ (len : ℤ) ≤ first then (0, 0) else (first.toNat, (last + 1).toNat)

def removeRangeByRank (start stop : ℤ) (zset : ZSetVal) : ℕ × ZSetVal :=
  let (first, past) := resolveRankRange zset.ordered.length start stop
  let victims := (zset.ordered.take past).drop first
  (victims.length, zset.removeAll (victims.map Prod.fst))

def removeRangeByScore (least most : ScoreBound) (zset : ZSetVal) : ℕ × ZSetVal :=
  let victims := zset.ordered.filter fun entry =>
    least.allowsMin entry.2 && most.allowsMax entry.2
  (victims.length, zset.removeAll (victims.map Prod.fst))

def removeRangeByLex (least most : LexBound) (zset : ZSetVal) : ℕ × ZSetVal :=
  let victims := zset.ordered.filter fun entry =>
    least.allowsMin entry.1 && most.allowsMax entry.1
  (victims.length, zset.removeAll (victims.map Prod.fst))

end ZSetVal

/-- A write to a sorted set. -/
inductive ZSetEdit where
  | add (member : Bytes) (score : F64) (flags : ZAddFlags) (thresholds : EncodingThresholds)
  | incr (plus : F64 → F64 → F64) (member : Bytes) (delta : F64) (flags : ZAddFlags)
      (thresholds : EncodingThresholds)
  | remove (member : Bytes)
  | popMin (count : ℕ)
  | popMax (count : ℕ)
  | removeRangeByRank (start stop : ℤ)
  | removeRangeByScore (least most : ScoreBound)
  | removeRangeByLex (least most : LexBound)

namespace ZSetVal

def edit (zset : ZSetVal) : ZSetEdit → ZSetVal
  | .add member score flags thresholds => (zset.add member score flags thresholds).2
  | .incr plus member delta flags thresholds => (zset.incr plus member delta flags thresholds).2
  | .remove member => (zset.remove member).2
  | .popMin count => (zset.popMin count).2
  | .popMax count => (zset.popMax count).2
  | .removeRangeByRank start stop => (zset.removeRangeByRank start stop).2
  | .removeRangeByScore least most => (zset.removeRangeByScore least most).2
  | .removeRangeByLex least most => (zset.removeRangeByLex least most).2

/-- The small form is sorted and names no member twice; index and scores hold the same pairs. -/
def Sound : ZSetVal → Prop
  | .listPack entries =>
    entries.Pairwise (rankKey · < rankKey ·) ∧ (entries.map Prod.fst).Nodup
  | .skipList index scores =>
    ∀ score member, toLex (score, member) ∈ index ↔ scores.get? member = some score

theorem sound_new : Sound new := ⟨.nil, nodup_nil⟩

theorem rankKey_injective : Function.Injective rankKey := by
  rintro ⟨left, leftScore⟩ ⟨right, rightScore⟩ same
  have pair : (leftScore, left) = (rightScore, right) := same
  simp_all

variable {entries : List (Bytes × F64)} {zset : ZSetVal}

private theorem sound_convertToSkiplist (distinct : (entries.map Prod.fst).Nodup) :
    Sound (convertToSkiplist (.listPack entries)) := by
  intro score member
  rw [mem_ofList, OrdMap.get?_insertAll _ _ _ distinct]
  have same : toLex (score, member) = rankKey (member, score) := rfl
  rw [same, mem_map_of_injective rankKey_injective]
  simp

private theorem notMem_eraseP (distinct : (entries.map Prod.fst).Nodup) :
    member ∉ (entries.eraseP (·.1 == member)).map Prod.fst := by
  induction entries with
  | nil => simp
  | cons entry entries ih =>
    obtain ⟨fresh, rest⟩ := nodup_cons.mp distinct
    by_cases same : entry.1 = member
    · subst same
      rw [eraseP_cons_of_pos (by simp)]
      exact fresh
    · rw [eraseP_cons_of_neg (by simpa using same), map_cons, mem_cons]
      exact not_or.mpr ⟨fun equal => same equal.symm, ih rest⟩

theorem Sound.eraseP (sound : Sound (.listPack entries)) (test : Bytes × F64 → Bool) :
    Sound (.listPack (entries.eraseP test)) :=
  ⟨sound.1.sublist eraseP_sublist, sound.2.sublist (eraseP_sublist.map Prod.fst)⟩

instance : IsTrans (Bytes × F64) fun left right => rankKey left ≤ rankKey right :=
  ⟨fun _ _ _ => le_trans⟩

instance : Std.Total fun left right : Bytes × F64 => rankKey left ≤ rankKey right :=
  ⟨fun _ _ => le_total _ _⟩

private theorem sound_listpackInsertSorted (sound : Sound (.listPack entries))
    (absent : member ∉ entries.map Prod.fst) (score : F64) :
    Sound (.listPack (listpackInsertSorted entries member score)) := by
  have perm : (listpackInsertSorted entries member score).Perm ((member, score) :: entries) :=
    perm_orderedInsert _ _ _
  have nodup : ((listpackInsertSorted entries member score).map Prod.fst).Nodup :=
    (perm.map Prod.fst).nodup_iff.mpr (nodup_cons.mpr ⟨absent, sound.2⟩)
  have sorted : (listpackInsertSorted entries member score).Pairwise
      (rankKey · ≤ rankKey ·) := (sound.1.imp le_of_lt).orderedInsert _ _
  refine ⟨(sorted.and (List.Nodup.of_map _ nodup)).imp ?_, nodup⟩
  exact fun both => lt_of_le_of_ne both.1 fun same => both.2 (rankKey_injective same)

theorem Sound.put (sound : Sound zset) (member : Bytes) (score : F64)
    (thresholds : EncodingThresholds) : Sound (zset.put member score thresholds) := by
  cases zset with
  | listPack entries =>
    have written := sound_listpackInsertSorted (sound.eraseP (·.1 == member)) (notMem_eraseP sound.2) score
    unfold ZSetVal.put
    dsimp only
    split_ifs
    · exact sound_convertToSkiplist written.2
    · exact written
  | skipList index scores =>
    intro other name
    have pairs := sound other name
    rw [mem_insert, OrdMap.get?_insert]
    by_cases same : name = member
    · subst same
      cases held : scores.get? name with
      | none =>
        rw [held] at pairs
        simp [pairs, eq_comm]
      | some old =>
        rw [mem_erase, pairs, held]
        simp [eq_comm]
    · have different : ∀ some : F64, toLex (other, name) ≠ toLex (some, member) :=
        fun some equal => same (congrArg (fun key => (ofLex key).2) equal)
      rw [if_neg same]
      cases held : scores.get? member with
      | none => simp [different, pairs]
      | some old => simp [different, pairs, mem_erase]

theorem Sound.remove (sound : Sound zset) (member : Bytes) : Sound (zset.remove member).2 := by
  cases zset with
  | listPack entries => exact sound.eraseP _
  | skipList index scores =>
    unfold ZSetVal.remove
    dsimp only
    split
    · rename_i old held
      intro other name
      rw [mem_erase, OrdMap.get?_erase, sound other name]
      by_cases same : name = member
      · subst same
        simp [held, eq_comm]
      have different : toLex (other, name) ≠ toLex (old, member) :=
        fun equal => same (congrArg (fun key => (ofLex key).2) equal)
      simp [same, different]
    · exact sound

theorem Sound.removeAll (sound : Sound zset) (victims : List Bytes) : Sound (zset.removeAll victims) := by
  induction victims generalizing zset with
  | nil => exact sound
  | cons victim victims ih => exact ih (sound.remove victim)

theorem Sound.edit (sound : Sound zset) (edit : ZSetEdit) : Sound (zset.edit edit) := by
  cases edit with
  | add member score flags thresholds =>
    have written := sound.put member score thresholds
    simp only [ZSetVal.edit, ZSetVal.add]
    split
    · split_ifs
      · exact sound
      · exact written
    · split_ifs <;> assumption
  | incr plus member delta flags thresholds =>
    simp only [ZSetVal.edit, ZSetVal.incr]
    split
    · split_ifs
      · exact sound
      · exact sound
      · exact sound.put member delta thresholds
    rename_i current held
    split_ifs
    · exact sound
    · exact sound
    · exact sound
    · exact sound.put member (plus current delta) thresholds
  | remove member => exact sound.remove member
  | popMin count => exact sound.removeAll _
  | popMax count => exact sound.removeAll _
  | removeRangeByRank start stop => exact sound.removeAll _
  | removeRangeByScore least most => exact sound.removeAll _
  | removeRangeByLex least most => exact sound.removeAll _

/-- A member given twice keeps its later score. -/
def fromPairs (pairs : List (Bytes × F64)) (thresholds : EncodingThresholds) : ZSetVal :=
  pairs.foldl (fun zset pair => zset.put pair.1 pair.2 thresholds) new

theorem sound_fromPairs (pairs : List (Bytes × F64)) (thresholds : EncodingThresholds) :
    Sound (fromPairs pairs thresholds) := by
  have grow : ∀ (rest : List (Bytes × F64)) (zset : ZSetVal), Sound zset →
      Sound (rest.foldl (fun zset pair => zset.put pair.1 pair.2 thresholds) zset) := by
    intro rest
    induction rest with
    | nil => exact fun _ sound => sound
    | cons pair rest ih =>
      exact fun zset sound => ih _ (sound.put pair.1 pair.2 thresholds)
  exact grow pairs new sound_new

/-- The entries of either form are sorted and name no member twice. -/
private theorem sound_ordered (sound : Sound zset) : Sound (.listPack zset.ordered) := by
  cases zset with
  | listPack entries => exact sound
  | skipList index scores =>
    constructor
    · exact pairwise_map.mpr index.sorted
    · rw [ordered, map_map]
      refine (nodup_map_iff_inj_on index.nodup).mpr ?_
      intro left leftHeld right rightHeld same
      have leftScore := (sound (ofLex left).1 (ofLex left).2).mp leftHeld
      have rightScore := (sound (ofLex right).1 (ofLex right).2).mp rightHeld
      have names : (ofLex left).2 = (ofLex right).2 := same
      rw [names, rightScore] at leftScore
      exact ofLex_inj.mp (Prod.ext (Option.some.inj leftScore).symm names)

/-- An entry above all others goes to the end. -/
private theorem listpackInsertSorted_last (above : ∀ other ∈ entries, rankKey other < rankKey entry) :
    listpackInsertSorted entries entry.1 entry.2 = entries ++ [entry] := by
  induction entries with
  | nil => rfl
  | cons head entries ih =>
    have later := ih fun other listed => above other (by simp [listed])
    unfold listpackInsertSorted at later ⊢
    rw [orderedInsert_cons, if_neg (not_le.mpr (above head (by simp))), later]
    rfl

private theorem foldl_put_unlimited (pairs entries : List (Bytes × F64))
    (sound : Sound (.listPack (entries ++ pairs))) (few : entries.length + pairs.length ≤ usizeMax)
    (short : ∀ pair ∈ pairs, pair.1.length ≤ usizeMax) :
    pairs.foldl (fun zset pair => put pair.1 pair.2 .unlimited zset) (.listPack entries) =
      .listPack (entries ++ pairs) := by
  induction pairs generalizing entries with
  | nil => simp
  | cons pair pairs ih =>
    simp only [length_cons] at few
    have regroup : entries ++ pair :: pairs = entries ++ [pair] ++ pairs := by simp
    obtain ⟨sorted, distinct⟩ := sound
    have above : ∀ other ∈ entries, rankKey other < rankKey pair := fun other listed =>
      (pairwise_append.mp sorted).2.2 other listed pair (by simp)
    have absent : ∀ other ∈ entries, ¬ (other.1 == pair.1) = true := by
      rw [map_append] at distinct
      intro other listed same
      exact disjoint_of_nodup_append distinct (mem_map.mpr ⟨other, listed, rfl⟩) (by simp [eq_of_beq same])
    have room : listpackOverflows (entries ++ [pair]).length pair.1.length .unlimited = false := by
      refine Bool.or_eq_false_iff.mpr ⟨decide_eq_false (not_lt.mpr ?_),
        decide_eq_false (not_lt.mpr (short pair (by simp)))⟩
      rw [length_append, length_singleton]
      exact (by omega : entries.length + 1 ≤ usizeMax)
    have written : put pair.1 pair.2 .unlimited (.listPack entries) = .listPack (entries ++ [pair]) := by
      unfold put
      dsimp only
      rw [eraseP_of_forall_not absent, listpackInsertSorted_last above, room]
      rfl
    rw [foldl_cons, written, regroup]
    apply ih
    · rw [← regroup]
      exact ⟨sorted, distinct⟩
    · simp only [length_append, length_singleton]
      omega
    · exact fun other listed => short other (by simp [listed])

/-- A sorted set rebuilt from its entries, with the large form forced where recorded. -/
def rebuild (pairs : List (Bytes × F64)) (encoding : Encoding) : ZSetVal :=
  let zset := fromPairs pairs .unlimited
  if encoding = .skipList then zset.forceLargeEncoding else zset

theorem rebuild_ordered (sound : Sound zset) (few : zset.ordered.length ≤ usizeMax)
    (short : ∀ pair ∈ zset.ordered, pair.1.length ≤ usizeMax) :
    rebuild zset.ordered zset.encoding = zset := by
  have listed : fromPairs zset.ordered .unlimited = .listPack zset.ordered := by
    have built := foldl_put_unlimited zset.ordered [] (sound_ordered sound) (by simpa using few) short
    simpa [fromPairs, new] using built
  unfold rebuild
  rw [listed]
  cases zset with
  | listPack entries => rfl
  | skipList index scores =>
    have distinct := (sound_ordered sound).2
    have sameIndex : ofList ((ordered (.skipList index scores)).map rankKey) = index := by
      apply ext
      intro key
      rw [mem_ofList]
      have keys : (ordered (.skipList index scores)).map rankKey = index.toList := by
        rw [ordered, map_map]
        exact map_id _
      rw [keys]
      exact mem_toList
    have sameScores : (∅ : OrdMap Bytes F64).insertAll (ordered (.skipList index scores)) =
        scores := by
      apply OrdMap.ext
      intro member
      apply Option.ext
      intro score
      rw [OrdMap.get?_insertAll _ _ _ distinct, ← sound score member, ordered, mem_map]
      simp only [OrdMap.get?_empty, reduceCtorEq, and_false, or_false]
      constructor
      · rintro ⟨key, held, same⟩
        have parts : ofLex key = (score, member) := by
          rw [← Prod.swap_inj]
          exact same
        have whole : key = toLex (score, member) := parts
        rwa [← whole]
      · exact fun held => ⟨toLex (score, member), held, rfl⟩
    exact congr (congrArg ZSetVal.skipList sameIndex) sameScores

end ZSetVal

end IronCache.Store
