import IronCache.Store.Encoding
import Mathlib.Algebra.Order.BigOperators.Group.List

/-!
# List values

`ListVal` of `ironcache-store/src/kvobj.rs`.
-/

namespace IronCache.Store

open List

/-- The bytes are counted along; a quicklist does not go back. -/
structure ListVal where
  elems : List Bytes
  totalBytes : ℕ
  quicklisted : Bool
deriving DecidableEq

def bytesOf (elems : List Bytes) : ℕ := (elems.map List.length).sum

@[simp]
theorem bytesOf_nil : bytesOf [] = 0 := rfl

@[simp]
theorem bytesOf_cons (elem : Bytes) : bytesOf (elem :: elems) = elem.length + bytesOf elems := by
  simp [bytesOf]

@[simp]
theorem bytesOf_append : bytesOf (front ++ back) = bytesOf front + bytesOf back := by
  simp [bytesOf]

@[simp]
theorem bytesOf_reverse : bytesOf elems.reverse = bytesOf elems := by
  simp [bytesOf, sum_reverse]

namespace ListVal

def new : ListVal := ⟨[], 0, false⟩

variable (list : ListVal)

def elementBytes : ℕ := list.totalBytes

def encoding : Encoding := if list.quicklisted then .quickList else .listPack

def len : ℕ := list.elems.length

/-- Marks the list as large once an edit has taken it over the live budget. -/
def maybeRatchetQuicklist (thresholds : EncodingThresholds) (list : ListVal) : ListVal :=
  if list.quicklisted then list
  else
    let (byteBudget, entryCap) := thresholds.listBudget
    if byteBudget < list.totalBytes ∨ entryCap < list.elems.length then
      { list with quicklisted := true }
    else list

def forceQuicklist : ListVal := { list with quicklisted := true }

/-- A negative index counts from the end. -/
def resolveIndex (index : ℤ) : Option ℕ :=
  let resolved := if index < 0 then index + list.elems.length else index
  if resolved < 0 ∨ (list.elems.length : ℤ) ≤ resolved then none else some resolved.toNat

/-- The half-open range of positions of an inclusive range with negative ends from the tail. -/
def resolveRange (start stop : ℤ) : ℕ × ℕ :=
  let len : ℤ := list.elems.length
  if len = 0 then (0, 0)
  else
    let first := max (if start < 0 then start + len else start) 0
    let last := min (if stop < 0 then stop + len else stop) (len - 1)
    if last < first ∨ len ≤ first then (0, 0) else (first.toNat, (last + 1).toNat)

def range (start stop : ℤ) : List Bytes :=
  let (first, past) := list.resolveRange start stop
  (list.elems.drop first).take (past - first)

def pushFront (elem : Bytes) (thresholds : EncodingThresholds) (list : ListVal) : ListVal :=
  maybeRatchetQuicklist thresholds
    { list with elems := elem :: list.elems, totalBytes := list.totalBytes + elem.length }

def pushBack (elem : Bytes) (thresholds : EncodingThresholds) (list : ListVal) : ListVal :=
  maybeRatchetQuicklist thresholds
    { list with elems := list.elems ++ [elem], totalBytes := list.totalBytes + elem.length }

def popFront : Option Bytes × ListVal :=
  match list.elems with
  | [] => (none, list)
  | elem :: rest =>
    (some elem, { list with elems := rest, totalBytes := list.totalBytes - elem.length })

def popBack : Option Bytes × ListVal :=
  match list.elems.getLast? with
  | none => (none, list)
  | some elem =>
    (some elem, { list with
      elems := list.elems.dropLast
      totalBytes := list.totalBytes - elem.length })

def set (index : ℤ) (elem : Bytes) (thresholds : EncodingThresholds) (list : ListVal) : Bool × ListVal :=
  match list.resolveIndex index with
  | none => (false, list)
  | some position =>
    (true, maybeRatchetQuicklist thresholds
      { list with
        elems := list.elems.set position elem
        totalBytes := list.totalBytes - (list.elems.getD position []).length + elem.length })

/-- Inserts beside the first element equal to the pivot, `past` positions after it. -/
def insertBeside (past : ℕ) (pivot elem : Bytes) (thresholds : EncodingThresholds)
    (list : ListVal) : Option ℕ × ListVal :=
  match list.elems.findIdx? (· == pivot) with
  | none => (none, list)
  | some position =>
    (some (list.elems.length + 1), maybeRatchetQuicklist thresholds
      { list with
        elems := list.elems.take (position + past) ++ elem :: list.elems.drop (position + past)
        totalBytes := list.totalBytes + elem.length })

def insertBefore : Bytes → Bytes → EncodingThresholds → ListVal → Option ℕ × ListVal :=
  insertBeside 0

def insertAfter : Bytes → Bytes → EncodingThresholds → ListVal → Option ℕ × ListVal :=
  insertBeside 1

/-- The elements without the first `cap` ones that match, and how many those were. -/
def dropMatching (elem : Bytes) : ℕ → List Bytes → List Bytes × ℕ
  | _, [] => ([], 0)
  | 0, elems => (elems, 0)
  | cap + 1, head :: rest =>
    if head = elem then
      let (kept, removed) := dropMatching elem cap rest
      (kept, removed + 1)
    else
      let (kept, removed) := dropMatching elem (cap + 1) rest
      (head :: kept, removed)

/-- A negative count removes from the end. -/
def removeMatching (count : ℤ) (elem : Bytes) (list : ListVal) : ℕ × ListVal :=
  if 0 ≤ count then
    let (kept, removed) := dropMatching elem (if count = 0 then usizeMax else count.toNat) list.elems
    (removed, { list with
      elems := kept
      totalBytes := list.totalBytes - removed * elem.length })
  else
    let (kept, removed) := dropMatching elem count.natAbs list.elems.reverse
    (removed, { list with
      elems := kept.reverse
      totalBytes := list.totalBytes - removed * elem.length })

def trim (start stop : ℤ) (list : ListVal) : ListVal :=
  let (first, past) := list.resolveRange start stop
  if past ≤ first then { list with elems := [], totalBytes := 0 }
  else
    { list with
      elems := (list.elems.take past).drop first
      totalBytes := list.totalBytes - bytesOf (list.elems.drop past) -
        bytesOf ((list.elems.take past).take first) }

end ListVal

inductive ListEdit where
  | pushFront (elem : Bytes) (thresholds : EncodingThresholds)
  | pushBack (elem : Bytes) (thresholds : EncodingThresholds)
  | popFront
  | popBack
  | set (index : ℤ) (elem : Bytes) (thresholds : EncodingThresholds)
  | insertBefore (pivot elem : Bytes) (thresholds : EncodingThresholds)
  | insertAfter (pivot elem : Bytes) (thresholds : EncodingThresholds)
  | removeMatching (count : ℤ) (elem : Bytes)
  | trim (start stop : ℤ)

namespace ListVal

def edit (list : ListVal) : ListEdit → ListVal
  | .pushFront elem thresholds => list.pushFront elem thresholds
  | .pushBack elem thresholds => list.pushBack elem thresholds
  | .popFront => list.popFront.2
  | .popBack => list.popBack.2
  | .set index elem thresholds => (list.set index elem thresholds).2
  | .insertBefore pivot elem thresholds => (list.insertBefore pivot elem thresholds).2
  | .insertAfter pivot elem thresholds => (list.insertAfter pivot elem thresholds).2
  | .removeMatching count elem => (list.removeMatching count elem).2
  | .trim start stop => list.trim start stop

/-- The byte total is exact, and a list in the small form is within the largest budget. -/
structure Sound (list : ListVal) : Prop where
  total : list.totalBytes = bytesOf list.elems
  small : list.quicklisted = false → list.totalBytes ≤ 64 * 1024

theorem sound_new : Sound new := ⟨rfl, fun _ => by decide⟩

variable {list : ListVal}

/-- The ratchet repairs the bound of an exact total. -/
theorem sound_maybeRatchetQuicklist (total : list.totalBytes = bytesOf list.elems) :
    Sound (list.maybeRatchetQuicklist thresholds) := by
  have budget := thresholds.listBudget_le
  unfold maybeRatchetQuicklist
  by_cases large : list.quicklisted = true
  · rw [if_pos large]
    exact ⟨total, fun small => absurd large (by simp [small])⟩
  dsimp only
  split_ifs with big
  · exact ⟨total, fun small => absurd small (by simp)⟩
  · refine ⟨total, fun _ => ?_⟩
    omega

variable {elems : List Bytes} {position : ℕ}

/-- Taking bytes away keeps a list sound. -/
theorem Sound.shrink (sound : Sound list) {totalBytes : ℕ} (total : totalBytes = bytesOf elems)
    (less : totalBytes ≤ list.totalBytes) : Sound { list with elems, totalBytes } :=
  ⟨total, fun small => less.trans (sound.small small)⟩

private theorem bytesOf_dropMatching (elem : Bytes) (cap : ℕ) (elems : List Bytes) :
    bytesOf (dropMatching elem cap elems).1 + (dropMatching elem cap elems).2 * elem.length =
      bytesOf elems := by
  fun_induction dropMatching elem cap elems with
  | case1 => simp
  | case2 => simp
  | case3 cap rest kept removed eq ih =>
    simp only [eq] at ih
    simp only [bytesOf_cons]
    linarith [Nat.succ_mul removed elem.length]
  | case4 cap head rest different kept removed eq ih =>
    simp only [eq] at ih
    simp only [bytesOf_cons]
    omega

theorem bytesOf_take_drop (count : ℕ) (elems : List Bytes) :
    bytesOf (elems.take count) + bytesOf (elems.drop count) = bytesOf elems := by
  rw [← bytesOf_append, take_append_drop]

private theorem bytesOf_set (inside : position < elems.length) (elem : Bytes) :
    bytesOf (elems.set position elem) + (elems.getD position []).length =
      bytesOf elems + elem.length := by
  induction elems generalizing position with
  | nil => simp at inside
  | cons head rest ih =>
    cases position with
    | zero =>
      simp
      omega
    | succ position =>
      have tail := @ih position (by simpa using inside)
      simp only [set_cons_succ, bytesOf_cons, getD_cons_succ]
      omega

private theorem resolveIndex_lt (resolved : list.resolveIndex index = some position) :
    position < list.elems.length := by
  unfold resolveIndex at resolved
  dsimp only at resolved
  split_ifs at resolved with outside <;> cases resolved <;> omega

theorem Sound.set (sound : Sound list) (index : ℤ) (elem : Bytes) (thresholds : EncodingThresholds) :
    Sound (list.set index elem thresholds).2 := by
  unfold ListVal.set
  split
  · exact sound
  rename_i position resolved
  apply sound_maybeRatchetQuicklist
  have exchanged := bytesOf_set (resolveIndex_lt resolved) elem
  have total := sound.total
  have held : (list.elems.getD position []).length ≤ bytesOf list.elems := by
    rw [getD_eq_getElem?_getD, getElem?_eq_getElem (resolveIndex_lt resolved), Option.getD_some]
    exact single_le_sum (fun _ _ => Nat.zero_le _) _ (mem_map.mpr ⟨_, getElem_mem _, rfl⟩)
  dsimp only
  omega

theorem Sound.insertBeside (sound : Sound list) (past : ℕ) (pivot elem : Bytes)
    (thresholds : EncodingThresholds) : Sound (list.insertBeside past pivot elem thresholds).2 := by
  unfold ListVal.insertBeside
  split
  · exact sound
  rename_i position found
  apply sound_maybeRatchetQuicklist
  have halves := bytesOf_take_drop (position + past) list.elems
  have total := sound.total
  simp only [bytesOf_append, bytesOf_cons]
  omega

theorem Sound.popBack (sound : Sound list) : Sound list.popBack.2 := by
  have total := sound.total
  unfold ListVal.popBack
  split
  · exact sound
  rename_i elem found
  have split : bytesOf list.elems = bytesOf list.elems.dropLast + elem.length := by
    conv_lhs => rw [← dropLast_append_getLast? elem found]
    simp
  exact sound.shrink (by omega) (by omega)

theorem Sound.removeMatching (sound : Sound list) (count : ℤ) (elem : Bytes) :
    Sound (list.removeMatching count elem).2 := by
  have total := sound.total
  unfold ListVal.removeMatching
  by_cases forward : 0 ≤ count
  · rw [if_pos forward]
    have kept := bytesOf_dropMatching elem (if count = 0 then usizeMax else count.toNat) list.elems
    exact sound.shrink (by omega) (by omega)
  rw [if_neg forward]
  have kept := bytesOf_dropMatching elem count.natAbs list.elems.reverse
  rw [bytesOf_reverse] at kept
  refine sound.shrink ?_ (by omega)
  rw [bytesOf_reverse]
  omega

theorem Sound.trim (sound : Sound list) (start stop : ℤ) : Sound (list.trim start stop) := by
  have total := sound.total
  unfold ListVal.trim
  dsimp only
  split_ifs with empty
  · exact sound.shrink rfl (by omega)
  have outer := bytesOf_take_drop (list.resolveRange start stop).2 list.elems
  have inner := bytesOf_take_drop (list.resolveRange start stop).1
    (list.elems.take (list.resolveRange start stop).2)
  exact sound.shrink (by omega) (by omega)

/-- Every edit keeps the byte total exact and the small form within the largest budget. -/
theorem Sound.edit (sound : Sound list) (edit : ListEdit) : Sound (list.edit edit) := by
  have total := sound.total
  cases edit with
  | pushFront elem thresholds =>
    apply sound_maybeRatchetQuicklist
    simp only [bytesOf_cons]
    omega
  | pushBack elem thresholds =>
    apply sound_maybeRatchetQuicklist
    simp only [bytesOf_append, bytesOf_cons, bytesOf_nil]
    omega
  | popFront =>
    change Sound list.popFront.2
    unfold ListVal.popFront
    split
    · exact sound
    rename_i elem rest listed
    rw [listed, bytesOf_cons] at total
    exact sound.shrink (by omega) (by omega)
  | popBack => exact sound.popBack
  | set index elem thresholds => exact sound.set index elem thresholds
  | insertBefore pivot elem thresholds => exact sound.insertBeside 0 pivot elem thresholds
  | insertAfter pivot elem thresholds => exact sound.insertBeside 1 pivot elem thresholds
  | removeMatching count elem => exact sound.removeMatching count elem
  | trim start stop => exact sound.trim start stop

def fromElems (thresholds : EncodingThresholds) (elems : List Bytes) : ListVal :=
  elems.foldl (fun list elem => list.pushBack elem thresholds) new

theorem sound_fromElems : Sound (fromElems thresholds elems) := by
  have grow : ∀ (rest : List Bytes) (list : ListVal), Sound list →
      Sound (rest.foldl (fun list elem => list.pushBack elem thresholds) list) := by
    intro rest
    induction rest with
    | nil => exact fun _ sound => sound
    | cons elem rest ih =>
      exact fun list sound => ih _ (sound.edit (.pushBack elem thresholds))
  exact grow elems new sound_new

private theorem foldl_pushBack_elems (list : ListVal) :
    (elems.foldl (fun list elem => list.pushBack elem thresholds) list).elems =
      list.elems ++ elems := by
  induction elems generalizing list with
  | nil => simp
  | cons elem elems ih =>
    have pushed : (list.pushBack elem thresholds).elems = list.elems ++ [elem] := by
      unfold pushBack maybeRatchetQuicklist
      dsimp only
      split_ifs <;> rfl
    rw [foldl_cons, ih, pushed]
    simp

private theorem fromElems_elems (thresholds : EncodingThresholds) (elems : List Bytes) :
    (fromElems thresholds elems).elems = elems := by
  simp [fromElems, foldl_pushBack_elems, new]

/-- Under the unlimited thresholds a list within the largest budget stays in the small form. -/
private theorem foldl_pushBack_small (list : ListVal) (small : list.quicklisted = false)
    (budget : list.totalBytes + bytesOf elems ≤ 64 * 1024)
    (short : list.elems.length + elems.length ≤ usizeMax) :
    (elems.foldl (fun list elem => list.pushBack elem .unlimited) list).quicklisted = false := by
  induction elems generalizing list with
  | nil => exact small
  | cons elem elems ih =>
    simp only [bytesOf_cons, length_cons] at budget short
    have pushed : list.pushBack elem .unlimited = { list with
        elems := list.elems ++ [elem], totalBytes := list.totalBytes + elem.length } := by
      unfold pushBack maybeRatchetQuicklist
      rw [EncodingThresholds.listBudget_unlimited]
      simp only [small, Bool.false_eq_true, if_false, length_append, length_singleton]
      rw [if_neg (by omega)]
    rw [foldl_cons, pushed]
    apply ih
    · exact small
    · dsimp only
      omega
    · simp only [length_append, length_singleton]
      omega

theorem range_all (list : ListVal) : list.range 0 (-1) = list.elems := by
  unfold range resolveRange
  by_cases empty : list.elems = []
  · simp [empty]
  have some : 0 < list.elems.length := length_pos_iff.mpr empty
  have first : max (if (0 : ℤ) < 0 then 0 + (list.elems.length : ℤ) else 0) 0 = 0 := by simp
  have last : min (if (-1 : ℤ) < 0 then -1 + (list.elems.length : ℤ) else -1)
      ((list.elems.length : ℤ) - 1) = (list.elems.length : ℤ) - 1 := by
    omega
  dsimp only
  rw [first, last, if_neg (by omega), if_neg (by omega)]
  simp

/-- A list rebuilt from its elements, with the large form forced where it was recorded. -/
def rebuild (elems : List Bytes) (encoding : Encoding) : ListVal :=
  let list := fromElems .unlimited elems
  if encoding = .quickList then list.forceQuicklist else list

theorem rebuild_range (sound : Sound list) (short : list.elems.length ≤ usizeMax) :
    rebuild (list.range 0 (-1)) list.encoding = list := by
  rw [range_all, rebuild]
  have elems := fromElems_elems .unlimited list.elems
  have total : (fromElems .unlimited list.elems).totalBytes = list.totalBytes := by
    rw [sound_fromElems.total, elems, sound.total]
  cases large : list.quicklisted with
  | true =>
    rw [if_pos (by simp [encoding, large])]
    exact congr (congr (congrArg ListVal.mk elems) total) large.symm
  | false =>
    rw [if_neg (by simp [encoding, large])]
    have small : (fromElems .unlimited list.elems).quicklisted = false := by
      apply foldl_pushBack_small
      · rfl
      · simpa [new, ← sound.total] using sound.small large
      · simpa [new] using short
    exact congr (congr (congrArg ListVal.mk elems) total) (small.trans large.symm)

end ListVal

end IronCache.Store
