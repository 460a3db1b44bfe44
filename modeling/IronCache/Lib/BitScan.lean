import Mathlib.Data.Nat.Bitwise
import Mathlib.Data.List.Basic
import Mathlib.Tactic.Ring

/-!
# Scanning a mask

The set bits of a mask, lowest first, each cleared before the next: `mask & (mask - 1)`.
-/

namespace IronCache.BitScan

open BitVec

theorem testBit_and_pred (set : mask.testBit lowest = true) (below : ∀ i < lowest, mask.testBit i = false) :
    (mask &&& (mask - 1)).testBit i = (mask.testBit i && decide (i ≠ lowest)) := by
  -- the bits from the lowest on, and nothing under them
  have split : mask = 2 ^ lowest * (mask >>> lowest) := by
    apply Nat.eq_of_testBit_eq
    intro j
    rw [Nat.testBit_two_pow_mul, Nat.testBit_shiftRight]
    by_cases under : j < lowest
    · simp [below j under, Nat.not_le.mpr under]
    · simp [Nat.not_lt.mp under, Nat.add_sub_cancel' (Nat.not_lt.mp under)]
  have odd : (mask >>> lowest).testBit 0 = true := by
    exact set
  obtain ⟨half, halved⟩ : ∃ half, mask >>> lowest = 2 * half + 1 := by
    rw [Nat.testBit_zero, decide_eq_true_eq] at odd
    exact ⟨mask >>> lowest / 2, by omega⟩
  have above : mask = 2 ^ (lowest + 1) * half + 2 ^ lowest := by
    rw [split, halved]
    ring
  have before : mask - 1 = 2 ^ (lowest + 1) * half + (2 ^ lowest - 1) := by
    have positive := Nat.two_pow_pos lowest
    omega
  have small : 2 ^ lowest < 2 ^ (lowest + 1) := Nat.pow_lt_pow_succ (by decide)
  rw [Nat.testBit_and, before, above, Nat.testBit_two_pow_mul_add half small,
    Nat.testBit_two_pow_mul_add half (by omega : 2 ^ lowest - 1 < 2 ^ (lowest + 1))]
  by_cases under : i < lowest + 1
  · simp only [if_pos under, Nat.testBit_two_pow, Nat.testBit_two_pow_sub_one]
    by_cases here : i = lowest
    · simp [here]
    · simp [here, Ne.symm here]
  · simp only [if_neg under, Bool.and_self]
    have other : i ≠ lowest := by omega
    simp [other]

variable {width : ℕ}

/-- The first set bit that passes a test. A mask has at most as many set bits as it is wide. -/
def findBit (test : ℕ → Bool) : ℕ → BitVec width → Option ℕ
  | 0, _ => none
  | turns + 1, mask =>
    if mask = 0 then none
    else if test mask.ctz.toNat then some mask.ctz.toNat
    else findBit test turns (mask &&& (mask - 1))

theorem getLsbD_and_pred {mask : BitVec width} (filled : mask ≠ 0) :
    (mask &&& (mask - 1)).getLsbD i = (mask.getLsbD i && decide (i ≠ mask.ctz.toNat)) := by
  have positive : 1 ≤ mask.toNat := by
    by_contra zero
    exact filled (eq_of_toNat_eq (by simpa using Nat.lt_one_iff.mp (Nat.not_le.mp zero)))
  have wide : 0 < width := by
    rcases Nat.eq_zero_or_pos width with rfl | wide
    · exact absurd (Subsingleton.elim mask 0) filled
    · exact wide
  have pred : (mask - 1).toNat = mask.toNat - 1 := by
    have one : (1 : BitVec width).toNat = 1 := by
      exact Nat.mod_eq_of_lt (Nat.one_lt_two_pow wide.ne')
    rw [toNat_sub_of_le, one]
    rw [le_def, one]
    exact positive
  rw [getLsbD, toNat_and, pred]
  refine testBit_and_pred (getLsbD_true_ctz_of_ne_zero filled) (fun j under => ?_)
  exact getLsbD_false_of_lt_ctz under

theorem find?_range_eq (bound : first < width) (here : test first = true)
    (below : ∀ i < first, test i = false) : (List.range width).find? test = some first := by
  rw [List.find?_range_eq_some]
  exact ⟨here, List.mem_range.mpr bound, fun i under => by simp [below i under]⟩

/-- The scan finds the first index whose bit is set and that passes the test. -/
theorem findBit_eq {turns : ℕ} {mask : BitVec width}
    (cleared : ∀ i, i + turns < width → mask.getLsbD i = false) :
    findBit test turns mask = (List.range width).find? fun i => mask.getLsbD i && test i := by
  induction turns generalizing mask with
  | zero =>
    have empty : ∀ i ∈ List.range width, ¬(mask.getLsbD i && test i) = true := by
      intro i inside
      rw [cleared i (by simpa using List.mem_range.mp inside)]
      exact Bool.false_ne_true
    exact (List.find?_eq_none.mpr empty).symm
  | succ turns ih =>
    unfold findBit
    split
    · rename_i zero
      subst zero
      exact (List.find?_eq_none.mpr fun i _ => by simp).symm
    rename_i filled
    have set := getLsbD_true_ctz_of_ne_zero filled
    have under := fun i => @BitVec.getLsbD_false_of_lt_ctz width i mask
    have inside : mask.ctz.toNat < width := lt_of_getLsbD set
    split
    · rename_i passes
      refine (find?_range_eq inside ?_ fun i before => ?_).symm
      · rw [set, passes]
        rfl
      · rw [under i before]
        rfl
    rename_i fails
    rw [ih]
    · -- the bit that was cleared does not pass
      congr 1
      funext i
      rw [getLsbD_and_pred filled]
      by_cases here : i = mask.ctz.toNat
      · subst here
        simp [Bool.eq_false_iff.mpr fails]
      · simp [here]
    · intro i early
      rw [getLsbD_and_pred filled]
      by_cases lowest : i < mask.ctz.toNat
      · rw [under i lowest]
        rfl
      by_cases here : i = mask.ctz.toNat
      · simp [here]
      -- a bit above the lowest one lies beyond what is left
      have late : mask.getLsbD mask.ctz.toNat = false ∨ width ≤ mask.ctz.toNat + (turns + 1) :=
        or_iff_not_imp_right.mpr fun near => cleared _ (Nat.not_le.mp near)
      rw [set] at late
      have far := late.resolve_left (by decide)
      omega

end IronCache.BitScan
