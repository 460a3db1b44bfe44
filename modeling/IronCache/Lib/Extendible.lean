import Mathlib.Algebra.Order.Ring.Nat
import Mathlib.Data.Finset.Interval
import Mathlib.Order.Interval.Finset.Nat

/-!
# Directories of extendible hashing

A directory of `2 ^ depth` slots names segments. A segment is shared by the slots that begin with
its stem.
-/

namespace IronCache.Extendible

open List
open Option

/-- Each segment is named by exactly the slots whose first bits, as many as it is deep, are its
stem. -/
structure Shares (depth : ℕ) (directory depths : List ℕ) : Prop where
  length : directory.length = 2 ^ depth
  known : ∀ segment ∈ directory, segment < depths.length
  shallow : ∀ own ∈ depths, own ≤ depth
  owned : ∀ segment own, depths[segment]? = some own → ∃ stem < 2 ^ own, ∀ slot < 2 ^ depth,
    directory[slot]? = some segment ↔ slot >>> (depth - own) = stem

variable {depth : ℕ} {directory depths : List ℕ}

variable {slot own segment : ℕ}

theorem Shares.lookup (shares : Shares depth directory depths) (inside : slot < 2 ^ depth) :
    ∃ segment own, directory[slot]? = some segment ∧ depths[segment]? = some own ∧ own ≤ depth := by
  have bound : slot < directory.length := shares.length.symm ▸ inside
  have known := shares.known _ (getElem_mem bound)
  exact ⟨directory[slot], _, getElem?_eq_getElem bound, getElem?_eq_getElem known,
    shares.shallow _ (getElem_mem known)⟩

theorem card_slots (shallow : own ≤ depth) (bound : stem < 2 ^ own) :
    ((Finset.range (2 ^ depth)).filter fun slot => slot >>> (depth - own) = stem).card =
      2 ^ (depth - own) := by
  have listed : ((Finset.range (2 ^ depth)).filter fun slot => slot >>> (depth - own) = stem) =
      Finset.Ico (stem * 2 ^ (depth - own)) (stem * 2 ^ (depth - own) + 2 ^ (depth - own)) := by
    ext slot
    rw [Finset.mem_filter, Finset.mem_range, Finset.mem_Ico, Nat.shiftRight_eq_div_pow,
      Nat.div_eq_iff (Nat.two_pow_pos _)]
    have whole : 2 ^ depth = 2 ^ own * 2 ^ (depth - own) := by
      rw [← pow_add, Nat.add_sub_cancel' shallow]
    have top : (stem + 1) * 2 ^ (depth - own) ≤ 2 ^ depth :=
      whole ▸ Nat.mul_le_mul_right _ bound
    rw [Nat.add_one_mul] at top
    have positive := Nat.two_pow_pos (depth - own)
    constructor
    · rintro ⟨-, low, high⟩
      exact ⟨low, by omega⟩
    · rintro ⟨low, high⟩
      exact ⟨by omega, low, by omega⟩
  rw [listed, Nat.card_Ico, Nat.add_sub_cancel_left]

theorem count_eq_card : directory.count segment =
    ((Finset.range directory.length).filter fun slot => directory[slot]? = some segment).card := by
  induction directory using List.reverseRecOn with
  | nil => rfl
  | append_singleton directory last ih =>
    have before : ∀ slot ∈ Finset.range directory.length,
        ((directory ++ [last])[slot]? = some segment ↔ directory[slot]? = some segment) := by
      intro slot inside
      rw [List.getElem?_append_left (Finset.mem_range.mp inside)]
    rw [count_append, length_append, length_singleton, Finset.range_add_one,
      Finset.filter_insert, Finset.filter_congr before, ih]
    by_cases same : last = segment
    · subst same
      simp
    · simp [same]

/-- A segment is named by `2 ^ (depth - own)` slots. -/
theorem Shares.count (shares : Shares depth directory depths) (deep : depths[segment]? = some own) :
    directory.count segment = 2 ^ (depth - own) := by
  obtain ⟨stem, bound, owned⟩ := shares.owned segment own deep
  have shallow := shares.shallow own (mem_of_getElem? deep)
  rw [← card_slots shallow bound, count_eq_card, shares.length]
  congr 1
  exact Finset.filter_congr fun slot inside => owned slot (Finset.mem_range.mp inside)

theorem shares_single : Shares 0 [0] [0] where
  length := rfl
  known := by simp
  shallow := by simp
  owned := by
    intro segment own deep
    obtain ⟨rfl, rfl⟩ : segment = 0 ∧ own = 0 := by
      cases segment with
      | zero => simpa using deep.symm
      | succ segment => simp at deep
    refine ⟨0, by decide, fun slot inside => ?_⟩
    have only : slot = 0 := by simpa using inside
    subst only
    simp

theorem shares_distinct : Shares depth (List.range (2 ^ depth)) (List.replicate (2 ^ depth) depth) where
  length := length_range
  known := by simp
  shallow := by simp
  owned := by
    intro segment own deep
    rw [getElem?_replicate] at deep
    split at deep
    · rename_i inside
      cases deep
      refine ⟨segment, inside, fun slot within => ?_⟩
      rw [getElem?_range within, Nat.sub_self, Nat.shiftRight_zero, some_inj]
    · cases deep

def double (directory : List ℕ) : List ℕ :=
  (List.range (directory.length * 2)).map fun slot => directory.getD (slot >>> 1) 0

theorem getElem?_double (inside : slot < directory.length * 2) :
    (double directory)[slot]? = directory[slot >>> 1]? := by
  have half : slot >>> 1 < directory.length := by
    omega
  unfold double
  rw [getElem?_map, getElem?_range inside, getElem?_eq_getElem half]
  simp [half]

theorem Shares.double (shares : Shares depth directory depths) :
    Shares (depth + 1) (double directory) depths where
  length := by
    unfold Extendible.double
    rw [length_map, length_range, shares.length, pow_succ]
  known := by
    intro segment member
    obtain ⟨slot, found⟩ := mem_iff_getElem?.mp member
    have inside : slot < directory.length * 2 := by
      have bound := (List.getElem?_eq_some_iff.mp found).1
      unfold Extendible.double at bound
      simpa using bound
    rw [getElem?_double inside] at found
    exact shares.known segment (mem_of_getElem? found)
  shallow own member := (shares.shallow own member).trans (Nat.le_succ depth)
  owned := by
    intro segment own deep
    obtain ⟨stem, bound, owned⟩ := shares.owned segment own deep
    have shallow := shares.shallow own (mem_of_getElem? deep)
    refine ⟨stem, bound, fun slot inside => ?_⟩
    have half : slot >>> 1 < 2 ^ depth := by
      omega
    rw [getElem?_double (shares.length.symm ▸ by omega), owned _ half, ← Nat.shiftRight_add]
    have deeper : 1 + (depth - own) = depth + 1 - own := by omega
    rw [deeper]

/-- The slots of a segment whose next bit is set go to its buddy. -/
def repoint (segment buddy shift : ℕ) (directory : List ℕ) : List ℕ :=
  directory.mapIdx fun slot named =>
    if named = segment ∧ slot >>> shift &&& 1 = 1 then buddy else named

theorem getElem?_repoint (found : directory[slot]? = some named) :
    (repoint segment buddy shift directory)[slot]? =
      some (if named = segment ∧ slot >>> shift &&& 1 = 1 then buddy else named) := by
  unfold repoint
  rw [getElem?_mapIdx, found]
  rfl

/-- The bit below a stem makes one of two stems of it. -/
theorem stem_split (room : own < depth) : slot >>> (depth - own) = slot >>> (depth - (own + 1)) / 2 := by
  have further : depth - own = depth - (own + 1) + 1 := by omega
  rw [further, Nat.shiftRight_add, Nat.shiftRight_eq_div_pow _ 1, pow_one]

/-- A segment that is not as deep as the directory splits: it and its buddy, new at the end, share
its slots by their next bit. -/
theorem Shares.split (shares : Shares depth directory depths) (deep : depths[segment]? = some own)
    (room : own < depth) : Shares depth (repoint segment depths.length (depth - (own + 1)) directory)
      (depths.set segment (own + 1) ++ [own + 1]) := by
  have held : segment < depths.length := (List.getElem?_eq_some_iff.mp deep).1
  obtain ⟨stem, bound, owned⟩ := shares.owned segment own deep
  have next : ∀ slot, slot >>> (depth - own) = slot >>> (depth - (own + 1)) / 2 :=
    fun slot => stem_split room
  refine ⟨?_, fun named member => ?_, fun other member => ?_, fun other its found => ?_⟩
  · unfold repoint
    rw [List.length_mapIdx, shares.length]
  · obtain ⟨slot, listed⟩ := mem_iff_getElem?.mp member
    obtain ⟨before, there⟩ : ∃ before, directory[slot]? = some before := by
      have inside := (List.getElem?_eq_some_iff.mp listed).1
      unfold repoint at inside
      rw [List.length_mapIdx] at inside
      exact ⟨_, getElem?_eq_getElem inside⟩
    rw [getElem?_repoint there, some_inj] at listed
    have known := shares.known before (mem_of_getElem? there)
    rw [length_append, List.length_set, length_singleton]
    split at listed <;> omega
  · rcases mem_append.mp member with old | new
    · rcases mem_or_eq_of_mem_set old with kept | rfl
      · exact shares.shallow other kept
      · exact room
    · rw [mem_singleton.mp new]
      exact room
  · -- the segment keeps the even stem, its buddy gets the odd one, the others keep theirs
    have slots : ∀ slot < 2 ^ depth, ∃ before, directory[slot]? = some before ∧
        before < depths.length := fun slot inside => by
      obtain ⟨before, _, there, itself, -⟩ := shares.lookup inside
      exact ⟨before, there, (List.getElem?_eq_some_iff.mp itself).1⟩
    rcases Nat.lt_trichotomy other depths.length with old | new | beyond
    · rw [List.getElem?_append_left (by rwa [List.length_set])] at found
      by_cases here : segment = other
      · subst here
        rw [getElem?_set_self held, some_inj] at found
        subst found
        refine ⟨2 * stem, by rw [pow_succ]; omega, fun slot inside => ?_⟩
        obtain ⟨before, there, known⟩ := slots slot inside
        have named := owned slot inside
        rw [there, some_inj, next] at named
        rw [getElem?_repoint there, some_inj, Nat.and_one_is_mod]
        split <;> omega
      · rw [getElem?_set_ne here] at found
        obtain ⟨its', bound', owned'⟩ := shares.owned other its found
        refine ⟨its', bound', fun slot inside => ?_⟩
        obtain ⟨before, there, known⟩ := slots slot inside
        have named := owned' slot inside
        rw [there, some_inj] at named
        rw [getElem?_repoint there, some_inj, ← named]
        split <;> omega
    · subst new
      rw [getElem?_append_right (by rw [List.length_set]), List.length_set, Nat.sub_self] at found
      cases found
      refine ⟨2 * stem + 1, by rw [pow_succ]; omega, fun slot inside => ?_⟩
      obtain ⟨before, there, known⟩ := slots slot inside
      have named := owned slot inside
      rw [there, some_inj, next] at named
      rw [getElem?_repoint there, some_inj, Nat.and_one_is_mod]
      split <;> omega
    · rw [getElem?_eq_none (by simp; omega)] at found
      cases found

end IronCache.Extendible
