import IronCache.Lib.BitScan
import Mathlib.Data.List.Perm.Basic

/-!
# Segments

The dense segment of `ironcache-dashtable/src/index.rs`: packed fingerprints, their records, and the
spill.
-/

namespace IronCache.Dash

open List
open Option

def segmentCap : ℕ := 64

def fingerprint (hash : BitVec 64) : BitVec 8 := (hash &&& 0xFF).setWidth 8

inductive Loc where
  | inline (index : ℕ)
  | overflow (index : ℕ)

/-- The inline block has room for 64 fingerprints; those behind the last record are stale. -/
structure Segment (α : Type) where
  localDepth : ℕ
  fps : List (BitVec 8)
  items : List α
  overflow : Option (List (BitVec 8 × α))
  full : fps.length = segmentCap
  packed : items.length ≤ segmentCap

/-- Removes by moving the last element into the hole. -/
def swapRemove (list : List β) (index : ℕ) : List β :=
  match list.getLast? with
  | some last => (list.set index last).dropLast
  | none => []

namespace Segment

variable {α : Type}

def new (localDepth : ℕ) : Segment α where
  localDepth := localDepth
  fps := List.replicate segmentCap 0
  items := []
  overflow := none
  full := length_replicate
  packed := Nat.zero_le _

def count (segment : Segment α) : ℕ :=
  segment.items.length + (segment.overflow.map List.length).getD 0

/-- One bit for each slot with the fingerprint, trimmed to the slots in use. -/
def matchMask (segment : Segment α) (fp : BitVec 8) : BitVec 64 :=
  let mask := segment.fps.zipIdx.foldl
    (fun mask slot => mask ||| (BitVec.ofBool (slot.1 == fp)).setWidth 64 <<< slot.2) 0
  if segment.items.length < segmentCap then
    mask &&& ((1 : BitVec 64) <<< segment.items.length - 1)
  else mask

def locate (segment : Segment α) (fp : BitVec 8) (eq : α → Bool) : Option Loc :=
  match BitScan.findBit (fun index => segment.items[index]?.any eq) 64 (segment.matchMask fp) with
  | some index => some (.inline index)
  | none =>
    match segment.overflow with
    | some spill => (spill.findIdx? fun record => record.1 == fp && eq record.2).map .overflow
    | none => none

def get (segment : Segment α) : Loc → Option α
  | .inline index => segment.items[index]?
  | .overflow index => segment.overflow.bind fun spill => spill[index]?.map Prod.snd

def set (segment : Segment α) (loc : Loc) (item : α) : Segment α :=
  match loc with
  | .inline index =>
    { segment with
      items := segment.items.set index item
      packed := by
        rw [length_set]
        exact segment.packed }
  | .overflow index =>
    { segment with
      overflow := segment.overflow.map fun spill =>
        spill.modify index fun record => (record.1, item) }

section

variable (segment : Segment α)

/-- Places a record: in the next inline slot, or in the spill of a full block. -/
def push (fp : BitVec 8) (item : α) : Segment α :=
  if room : segment.items.length < segmentCap then
    { segment with
      fps := segment.fps.set segment.items.length fp
      items := segment.items ++ [item]
      full := by
        rw [length_set]
        exact segment.full
      packed := by
        rw [List.length_append]
        exact room }
  else { segment with overflow := some (segment.overflow.getD [] ++ [(fp, item)]) }

/-- Removes a record; a spill that is used up is dropped. -/
def removeAt (loc : Loc) : Segment α :=
  match loc with
  | .inline index =>
    let last := segment.items.length - 1
    { segment with
      fps := if index ≠ last then segment.fps.set index (segment.fps.getD last 0) else segment.fps
      items := swapRemove segment.items index
      full := by
        split
        · rw [length_set]
          exact segment.full
        · exact segment.full
      packed := by
        unfold swapRemove
        split
        · rw [length_dropLast, length_set]
          exact (Nat.sub_le _ 1).trans segment.packed
        · exact Nat.zero_le _ }
  | .overflow index =>
    { segment with
      overflow := segment.overflow.bind fun spill =>
        let rest := swapRemove spill index
        if rest.isEmpty then none else some rest }

/-- Every record with its fingerprint, the inline ones first. -/
def records : List (BitVec 8 × α) :=
  (segment.fps.take segment.items.length).zip segment.items ++ segment.overflow.getD []

def drainAll : List (BitVec 8 × α) × Segment α :=
  (segment.records, { segment with items := [], overflow := none, packed := Nat.zero_le _ })

def iter : List α :=
  segment.items ++ (segment.overflow.getD []).map Prod.snd

def allFpsEqual (fp : BitVec 8) : Bool :=
  (segment.fps.take segment.items.length).all (· == fp) && (segment.overflow.getD []).all (·.1 == fp)

theorem length_take : (segment.fps.take segment.items.length).length = segment.items.length := by
  rw [List.length_take, segment.full]
  exact Nat.min_eq_left segment.packed

theorem iter_eq : segment.iter = segment.records.map Prod.snd := by
  unfold iter records
  rw [map_append, map_snd_zip segment.length_take.ge]

/-- A record with its fingerprint at a location. -/
def At (loc : Loc) (fp : BitVec 8) (item : α) : Prop :=
  match loc with
  | .inline index => segment.fps[index]? = some fp ∧ segment.items[index]? = some item
  | .overflow index => ∃ spill, segment.overflow = some spill ∧ spill[index]? = some (fp, item)

end

variable {segment : Segment α} {fp : BitVec 8}

variable {index : ℕ} {item : α} {eq : α → Bool} {loc : Loc} {β : Type}

theorem getElem?_inline :
    ((segment.fps.take segment.items.length).zip segment.items)[index]? = some (fp, item) ↔
      segment.At (.inline index) fp item := by
  rw [getElem?_zip_eq_some]
  refine and_congr_left fun found => ?_
  rw [List.getElem?_take_of_lt (List.getElem?_eq_some_iff.mp found).1]

theorem mem_records : (fp, item) ∈ segment.records ↔ ∃ loc, segment.At loc fp item := by
  unfold records
  rw [mem_append, mem_iff_getElem?]
  constructor
  · rintro (⟨index, found⟩ | spilt)
    · exact ⟨.inline index, getElem?_inline.mp found⟩
    cases held : segment.overflow with
    | none =>
      rw [held] at spilt
      cases spilt
    | some spill =>
      rw [held] at spilt
      obtain ⟨index, found⟩ := mem_iff_getElem?.mp spilt
      exact ⟨.overflow index, spill, held, found⟩
  · rintro ⟨index | index, there⟩
    · exact .inl ⟨index, getElem?_inline.mpr there⟩
    obtain ⟨spill, held, found⟩ := there
    rw [held]
    exact .inr (mem_of_getElem? found)

/-- The bits that the scan of the fingerprints sets, from a slot on. -/
private theorem getLsbD_scan (fp : BitVec 8) (fps : List (BitVec 8)) (start : ℕ) (mask : BitVec 64)
    (index : ℕ) :
    ((fps.zipIdx start).foldl
      (fun mask slot => mask ||| (BitVec.ofBool (slot.1 == fp)).setWidth 64 <<< slot.2)
      mask).getLsbD index =
      (mask.getLsbD index || decide (index < 64 ∧ start ≤ index ∧ fps[index - start]? = some fp)) := by
  induction fps generalizing start mask with
  | nil => simp
  | cons head fps ih =>
    rw [zipIdx_cons, foldl_cons, ih, BitVec.getLsbD_or, Bool.or_assoc]
    rcases Nat.lt_trichotomy index start with before | here | behind
    · simp [before, Nat.not_le.mpr before, Nat.not_le.mpr (before.trans (Nat.lt_succ_self start))]
    · subst here
      by_cases same : head = fp <;> simp [same]
    · have later : index - start = index - (start + 1) + 1 := by omega
      simp [later, Nat.not_lt.mpr behind.le, behind.le, Nat.succ_le_of_lt behind]

private theorem getLsbD_used (room : used < 64) (index : ℕ) :
    (((1 : BitVec 64) <<< used) - 1).getLsbD index = decide (index < used) := by
  have shifted : ((1 : BitVec 64) <<< used).toNat = 2 ^ used := by
    rw [BitVec.toNat_shiftLeft, Nat.shiftLeft_eq]
    have small : 2 ^ used < 2 ^ 64 := Nat.pow_lt_pow_right (by decide) room
    exact (congrArg (· % 2 ^ 64) (Nat.one_mul _)).trans (Nat.mod_eq_of_lt small)
  have trimmed : (((1 : BitVec 64) <<< used) - 1).toNat = 2 ^ used - 1 := by
    rw [BitVec.toNat_sub_of_le, shifted]
    · rfl
    · rw [BitVec.le_def, shifted]
      exact Nat.one_le_two_pow
  rw [BitVec.getLsbD, trimmed, Nat.testBit_two_pow_sub_one]

theorem getLsbD_matchMask : (segment.matchMask fp).getLsbD index =
      decide (index < segment.items.length ∧ segment.fps[index]? = some fp) := by
  have scanned := getLsbD_scan fp segment.fps 0 0 index
  unfold matchMask
  generalize segment.fps.zipIdx.foldl _ _ = mask at scanned ⊢
  simp only [BitVec.ofNat_eq_ofNat, BitVec.getLsbD_zero, Bool.false_or, Nat.zero_le, true_and,
    Nat.sub_zero] at scanned
  -- a fingerprint has one of the 64 slots
  have slots : segment.fps[index]? = some fp → index < 64 := fun found =>
    (List.getElem?_eq_some_iff.mp found).1.trans_eq segment.full
  split
  · rename_i room
    have used := getLsbD_used room index
    rw [BitVec.getLsbD_and, scanned, used, ← Bool.decide_and, decide_eq_decide]
    exact ⟨fun both => ⟨both.2, both.1.2⟩, fun both => ⟨⟨slots both.2, both.2⟩, both.1⟩⟩
  · rename_i crowded
    have used : segment.items.length = 64 := le_antisymm segment.packed (Nat.not_lt.mp crowded)
    rw [scanned, used]

/-- A probe finds a record with the fingerprint that passes the test, if there is one. -/
theorem locate_eq_some (located : segment.locate fp eq = some loc) :
    ∃ item, segment.At loc fp item ∧ segment.get loc = some item ∧ eq item = true := by
  unfold locate at located
  rw [BitScan.findBit_eq fun i far => absurd far (by omega)] at located
  split at located
  · rename_i index found
    cases located
    have hit := find?_some found
    rw [getLsbD_matchMask, Bool.and_eq_true_iff, decide_eq_true_eq] at hit
    obtain ⟨⟨used, stamped⟩, passes⟩ := hit
    obtain ⟨item, held⟩ : ∃ item, segment.items[index]? = some item :=
      ⟨_, getElem?_eq_getElem used⟩
    rw [held] at passes
    exact ⟨item, ⟨stamped, held⟩, held, passes⟩
  split at located
  · rename_i spill held
    obtain ⟨index, found, rfl⟩ := map_eq_some_iff.mp located
    obtain ⟨inside, passes, -⟩ := findIdx?_eq_some_iff_getElem.mp found
    rw [Bool.and_eq_true_iff, beq_iff_eq] at passes
    have there : spill[index]? = some (fp, spill[index].2) := by
      rw [getElem?_eq_getElem inside, ← passes.1]
    refine ⟨spill[index].2, ⟨spill, held, there⟩, ?_, passes.2⟩
    change (segment.overflow.bind fun spill => spill[index]?.map Prod.snd) = _
    rw [held, bind_some, there]
    rfl
  · cases located

theorem locate_eq_none (missed : segment.locate fp eq = none)
    (member : (fp, item) ∈ segment.records) : eq item = false := by
  unfold locate at missed
  rw [BitScan.findBit_eq fun i far => absurd far (by omega)] at missed
  obtain ⟨loc, there⟩ := mem_records.mp member
  split at missed
  · cases missed
  rename_i none
  cases loc with
  | inline index =>
    obtain ⟨stamped, held⟩ := there
    have used := (List.getElem?_eq_some_iff.mp held).1
    have miss := List.find?_eq_none.mp none index (List.mem_range.mpr (used.trans_le segment.packed))
    rw [getLsbD_matchMask, held] at miss
    simpa [used, stamped] using miss
  | overflow index =>
    obtain ⟨spill, held, found⟩ := there
    rw [held] at missed
    simp only [map_eq_none_iff, findIdx?_eq_none_iff] at missed
    have miss := missed _ (mem_of_getElem? found)
    simpa using miss

private theorem getElem?_swapRemove : (swapRemove list index)[other]? = if other + 1 < list.length then
      (if other = index then list[list.length - 1]? else list[other]?) else none := by
  unfold swapRemove
  rw [getLast?_eq_getElem?]
  cases last : list[list.length - 1]? with
  | none =>
    have empty : list.length ≤ list.length - 1 := getElem?_eq_none_iff.mp last
    rw [if_neg (by omega)]
    rfl
  | some final =>
    rw [getElem?_dropLast, length_set]
    by_cases inside : other + 1 < list.length
    · rw [if_pos (by omega), if_pos inside, getElem?_set]
      by_cases here : other = index
      · subst here
        rw [if_pos rfl, if_pos rfl, if_pos (by omega)]
      · rw [if_neg (Ne.symm here), if_neg here]
    · rw [if_neg (by omega), if_neg inside]

private theorem swapRemove_perm (found : list[index]? = some element) :
    (element :: swapRemove list index).Perm list := by
  obtain rfl | ⟨init, last, rfl⟩ := list.eq_nil_or_concat
  · cases found
  rw [concat_eq_append] at found ⊢
  unfold swapRemove
  rw [getLast?_concat]
  dsimp only
  by_cases inside : index < init.length
  · rw [set_append_left _ _ inside, dropLast_concat]
    rw [getElem?_append_left inside, getElem?_eq_getElem inside] at found
    cases found
    calc (init[index] :: init.set index last).Perm (init[index] :: last :: init.eraseIdx index) :=
          (List.set_perm_cons_eraseIdx inside last).cons _
      _ |>.Perm (last :: init[index] :: init.eraseIdx index) := .swap _ _ _
      _ |>.Perm (last :: init) := (List.getElem_cons_eraseIdx_perm inside).cons _
      _ |>.Perm (init ++ [last]) := (perm_append_singleton last init).symm
  have bound := (List.getElem?_eq_some_iff.mp found).1
  rw [List.length_append, List.length_singleton] at bound
  have here : index = init.length := by omega
  subst here
  rw [getElem?_concat_length] at found
  cases found
  rw [set_append_right _ _ (le_refl _), Nat.sub_self, set_cons_zero, dropLast_concat]
  exact (perm_append_singleton element init).symm

theorem localDepth_push : (segment.push fp item).localDepth = segment.localDepth := by
  unfold push
  split <;> rfl

theorem push_perm (segment : Segment α) (fp : BitVec 8) (item : α) :
    (segment.push fp item).records.Perm ((fp, item) :: segment.records) := by
  unfold push
  split
  · rename_i room
    have slots : segment.items.length < segment.fps.length := segment.full.symm ▸ room
    have stamped : (segment.fps.set segment.items.length fp).take (segment.items.length + 1) =
        segment.fps.take segment.items.length ++ [fp] := by
      rw [take_add_one, take_set, getElem?_set_self slots, set_eq_of_length_le segment.length_take.le]
      rfl
    unfold records
    rw [List.length_append, List.length_singleton, stamped, zip_append segment.length_take, append_assoc]
    exact perm_middle
  · unfold records
    rw [getD_some, ← append_assoc]
    exact perm_append_singleton _ _

/-- A record is taken out, whatever fills its place. -/
theorem removeAt_perm (there : segment.At loc fp item) :
    ((fp, item) :: (segment.removeAt loc).records).Perm segment.records := by
  cases loc with
  | inline index =>
    have inline : ((segment.removeAt (.inline index)).fps.take
        (segment.removeAt (.inline index)).items.length).zip
          (segment.removeAt (.inline index)).items =
        swapRemove ((segment.fps.take segment.items.length).zip segment.items) index := by
      have used : ((segment.fps.take segment.items.length).zip segment.items).length =
          segment.items.length := by
        rw [length_zip, segment.length_take, Nat.min_self]
      refine ext_getElem? fun other => ext fun record => ?_
      obtain ⟨stamp, kept⟩ := record
      rw [getElem?_inline, getElem?_swapRemove, used]
      change ((if index ≠ segment.items.length - 1 then segment.fps.set index
          (segment.fps.getD (segment.items.length - 1) 0) else segment.fps)[other]? = some stamp ∧
        (swapRemove segment.items index)[other]? = some kept) ↔ _
      rw [getElem?_swapRemove]
      by_cases inside : other + 1 < segment.items.length
      · simp only [if_pos inside]
        have slots : segment.items.length - 1 < segment.fps.length := by
          rw [segment.full]
          exact lt_of_lt_of_le (by omega) segment.packed
        by_cases here : other = index
        · -- the last record is moved here, fingerprint and all
          subst here
          rw [if_pos (by omega), if_pos rfl, if_pos rfl, getElem?_inline,
            getElem?_set_self (by omega), getD_eq_getElem _ _ slots]
          simp only [At, getElem?_eq_getElem slots]
        rw [if_neg here, if_neg here, getElem?_inline]
        unfold At
        split
        · rw [getElem?_set_ne (Ne.symm here)]
        · rfl
      · simp [inside]
    have removed := swapRemove_perm (getElem?_inline.mpr there)
    unfold records
    rw [inline, ← cons_append]
    exact removed.append_right _
  | overflow index =>
    obtain ⟨spill, held, found⟩ := there
    have removed := swapRemove_perm found
    have rest : (segment.removeAt (.overflow index)).overflow.getD [] = swapRemove spill index := by
      change ((segment.overflow.bind fun spill =>
        if (swapRemove spill index).isEmpty then none else some (swapRemove spill index)).getD []) = _
      rw [held, bind_some]
      split
      · rename_i empty
        exact (isEmpty_iff.mp empty).symm
      · rfl
    unfold records
    rw [rest, held, getD_some]
    exact perm_middle.symm.trans (removed.append_left _)

theorem set_perm_of_getElem? {list : List β} {element : β} (found : list[index]? = some element) (other : β) :
    list.Perm (element :: list.eraseIdx index) ∧
      (list.set index other).Perm (other :: list.eraseIdx index) := by
  obtain ⟨inside, rfl⟩ := List.getElem?_eq_some_iff.mp found
  exact ⟨(List.getElem_cons_eraseIdx_perm inside).symm, List.set_perm_cons_eraseIdx inside other⟩

theorem set_perm (there : segment.At loc fp item) (other : α) :
    ∃ rest, segment.records.Perm ((fp, item) :: rest) ∧
      (segment.set loc other).records.Perm ((fp, other) :: rest) := by
  cases loc with
  | inline index =>
    have inline : ((segment.set (.inline index) other).fps.take
        (segment.set (.inline index) other).items.length).zip
          (segment.set (.inline index) other).items =
        ((segment.fps.take segment.items.length).zip segment.items).set index (fp, other) := by
      change (segment.fps.take (segment.items.set index other).length).zip (segment.items.set index other) = _
      refine ext_getElem? fun slot => ext fun record => ?_
      rw [length_set, getElem?_zip_eq_some, getElem?_set, getElem?_set]
      have used := (List.getElem?_eq_some_iff.mp there.2).1
      by_cases here : index = slot
      · subst here
        have bound : index < ((segment.fps.take segment.items.length).zip segment.items).length := by
          rw [length_zip, segment.length_take, Nat.min_self]
          exact used
        rw [if_pos rfl, if_pos rfl, if_pos used, if_pos bound, List.getElem?_take_of_lt used, there.1]
        simp [Prod.ext_iff]
      · rw [if_neg here, if_neg here, getElem?_zip_eq_some]
    obtain ⟨before, after⟩ := set_perm_of_getElem? (getElem?_inline.mpr there) (fp, other)
    refine ⟨_ ++ segment.overflow.getD [], before.append_right _, ?_⟩
    unfold records
    rw [inline]
    exact after.append_right _
  | overflow index =>
    obtain ⟨spill, held, found⟩ := there
    obtain ⟨before, after⟩ := set_perm_of_getElem? found (fp, other)
    have written : (segment.set (.overflow index) other).overflow.getD [] = spill.set index (fp, other) := by
      change ((segment.overflow.map fun spill =>
        spill.modify index fun record => (record.1, other)).getD []) = _
      rw [held, map_some, getD_some]
      refine ext_getElem? fun slot => ?_
      rw [getElem?_modify, getElem?_set]
      by_cases here : index = slot
      · subst here
        rw [found, if_pos rfl, if_pos (List.getElem?_eq_some_iff.mp found).1]
        simp
      · simp [here]
    refine ⟨(segment.fps.take segment.items.length).zip segment.items ++ spill.eraseIdx index, ?_, ?_⟩
    · unfold records
      rw [held, getD_some]
      exact (before.append_left _).trans perm_middle
    · unfold records
      rw [written]
      exact (after.append_left _).trans perm_middle

end Segment

end IronCache.Dash
