import IronCache.Lib.OrdSet

/-!
# Majorities of neighbouring voter sets

Two majorities of one set meet, and so do those of two sets that differ in at most one element.
-/

namespace IronCache

open Finset

variable {α : Type u} [DecidableEq α]

/-- A set of ballots that contains more than half of the voters. -/
def IsMajority (voters ballots : Finset α) : Prop :=
  voters.card / 2 + 1 ≤ (ballots ∩ voters).card

/-- Two voter sets that differ in at most the one given element. -/
def DifferAt (item : α) (left right : Finset α) : Prop :=
  left.erase item = right.erase item

/-- Two voter sets that differ in at most one element. -/
def Neighbours (left right : Finset α) : Prop :=
  left = right ∨ ∃ item, DifferAt item left right

theorem Neighbours.refl (voters : Finset α) : Neighbours voters voters := .inl rfl

theorem Neighbours.symm {left right : Finset α} (near : Neighbours left right) :
    Neighbours right left := by
  rcases near with same | ⟨item, differ⟩
  · exact .inl same.symm
  · exact .inr ⟨item, Eq.symm differ⟩

theorem IsMajority.meet_of_card {first second : Finset α} {voters voters' all : Finset α}
    (firstMajority : IsMajority voters first) (secondMajority : IsMajority voters' second)
    (within : voters ∪ voters' ⊆ all) (few : all.card < (voters.card / 2 + 1) + (voters'.card / 2 + 1)) :
    ∃ member, member ∈ first ∧ member ∈ second := by
  have overlap : all.card < (first ∩ voters).card + (second ∩ voters').card :=
    few.trans_le (Nat.add_le_add firstMajority secondMajority)
  have insideFirst : first ∩ voters ⊆ all :=
    (inter_subset_right.trans subset_union_left).trans within
  have insideSecond : second ∩ voters' ⊆ all :=
    (inter_subset_right.trans subset_union_right).trans within
  obtain ⟨member, common⟩ :=
    inter_nonempty_of_card_lt_card_add_card insideFirst insideSecond overlap
  rw [mem_inter, mem_inter, mem_inter] at common
  exact ⟨member, common.1.1, common.2.1⟩

/-- Majorities of neighbouring voter sets have a member in common. -/
theorem IsMajority.meet {first second voters voters' : Finset α}
    (firstMajority : IsMajority voters first) (secondMajority : IsMajority voters' second)
    (near : Neighbours voters voters') : ∃ member, member ∈ first ∧ member ∈ second := by
  rcases near with rfl | ⟨item, differ⟩
  · exact firstMajority.meet_of_card secondMajority (union_subset (Subset.refl _) (Subset.refl _)) (by omega)
  have erased : voters.erase item = voters'.erase item := differ
  by_cases left : item ∈ voters <;> by_cases right : item ∈ voters'
  · have same : voters = voters' := by
      rw [← insert_erase left, ← insert_erase right, erased]
    subst same
    exact firstMajority.meet_of_card secondMajority (union_subset (Subset.refl _) (Subset.refl _)) (by omega)
  · have smaller : voters' = voters.erase item := by
      rw [erased, erase_eq_of_notMem right]
    have size := card_erase_add_one left
    rw [← smaller] at size
    exact firstMajority.meet_of_card secondMajority
      (union_subset (Subset.refl _) (smaller ▸ erase_subset _ _)) (by omega)
  · have smaller : voters = voters'.erase item := by
      rw [← erased, erase_eq_of_notMem left]
    have size := card_erase_add_one right
    rw [← smaller] at size
    exact firstMajority.meet_of_card secondMajority
      (union_subset (smaller ▸ erase_subset _ _) (Subset.refl _)) (by omega)
  · have same : voters = voters' := by
      rw [← erase_eq_of_notMem left, erased, erase_eq_of_notMem right]
    subst same
    exact firstMajority.meet_of_card secondMajority (union_subset (Subset.refl _) (Subset.refl _)) (by omega)

/-- More than half of an ordered set of voters, counted among the ballots. -/
theorem OrdSet.isMajority_of_filter {α : Type u} [LinearOrder α] {voters ballots : OrdSet α}
    (counted : voters.size / 2 + 1 ≤ (ballots.filter (· ∈ voters)).size) :
    IsMajority voters.toFinset ballots.toFinset := by
  refine le_trans counted (le_of_eq ?_)
  rw [← OrdSet.card_toFinset]
  congr 1

theorem differAt_insert (item : α) (voters : Finset α) : DifferAt item voters (insert item voters) := by
  simp [DifferAt]

theorem differAt_erase (item : α) (voters : Finset α) : DifferAt item voters (voters.erase item) := by
  simp [DifferAt]

end IronCache
