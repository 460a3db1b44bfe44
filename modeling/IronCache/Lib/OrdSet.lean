import Mathlib.Data.List.Sort
import Mathlib.Data.Finset.Card

/-!
# Ordered finite sets

A finite set kept as its strictly increasing list of elements.
-/

namespace IronCache

open List

/-- A set as its ascending list. -/
structure OrdSet (α : Type u) [LinearOrder α] where
  toList : List α
  sorted : toList.Pairwise (· < ·)
deriving DecidableEq

namespace OrdSet

variable {α : Type u} [LinearOrder α]

instance : Membership α (OrdSet α) := ⟨fun members item => item ∈ members.toList⟩

instance (item : α) (members : OrdSet α) : Decidable (item ∈ members) :=
  inferInstanceAs (Decidable (item ∈ members.toList))

variable {item : α} {members : OrdSet α}

theorem mem_toList : item ∈ members.toList ↔ item ∈ members := Iff.rfl

theorem nodup (members : OrdSet α) : members.toList.Nodup :=
  members.sorted.imp fun less => less.ne

@[ext]
theorem ext {left right : OrdSet α} (same : ∀ item, item ∈ left ↔ item ∈ right) : left = right := by
  have lists : left.toList = right.toList :=
    ((perm_ext_iff_of_nodup left.nodup right.nodup).mpr same).eq_of_pairwise' left.sorted right.sorted
  cases left
  simp_all

def empty : OrdSet α := ⟨[], .nil⟩

instance : EmptyCollection (OrdSet α) := ⟨empty⟩

instance : Inhabited (OrdSet α) := ⟨empty⟩

@[simp]
theorem notMem_empty : item ∉ (∅ : OrdSet α) := not_mem_nil

private def insertList (item : α) : List α → List α
  | [] => [item]
  | head :: tail =>
    if item < head then item :: head :: tail
    else if item = head then head :: tail
    else head :: insertList item tail

variable {other : α} {items : List α}

private theorem mem_insertList : other ∈ insertList item items ↔ other = item ∨ other ∈ items := by
  induction items with
  | nil => simp [insertList]
  | cons head tail ih =>
    simp only [insertList]
    split
    · simp
    split
    · rename_i same
      subst same
      simp
    · simp only [mem_cons, ih]
      tauto

private theorem insertList_sorted (item : α) (sorted : items.Pairwise (· < ·)) :
    (insertList item items).Pairwise (· < ·) := by
  induction items with
  | nil => simp [insertList]
  | cons head tail ih =>
    obtain ⟨below, tailSorted⟩ := pairwise_cons.mp sorted
    simp only [insertList]
    split
    · rename_i less
      refine pairwise_cons.mpr ⟨fun other member => ?_, sorted⟩
      rcases mem_cons.mp member with rfl | member
      · exact less
      · exact less.trans (below other member)
    split
    · exact sorted
    rename_i notLess notSame
    refine pairwise_cons.mpr ⟨fun other member => ?_, ih tailSorted⟩
    rcases mem_insertList.mp member with rfl | member
    · exact lt_of_le_of_ne (not_lt.mp notLess) fun same => notSame same.symm
    · exact below other member

def insert (item : α) (members : OrdSet α) : OrdSet α :=
  ⟨insertList item members.toList, insertList_sorted item members.sorted⟩

@[simp]
theorem mem_insert : other ∈ members.insert item ↔ other = item ∨ other ∈ members :=
  mem_insertList

def filter (keep : α → Bool) (members : OrdSet α) : OrdSet α :=
  ⟨members.toList.filter keep, members.sorted.filter keep⟩

@[simp]
theorem mem_filter : item ∈ members.filter keep ↔ item ∈ members ∧ keep item = true :=
  List.mem_filter

def erase (item : α) (members : OrdSet α) : OrdSet α :=
  members.filter fun other => other ≠ item

@[simp]
theorem mem_erase : other ∈ members.erase item ↔ other ≠ item ∧ other ∈ members := by
  simp [erase, and_comm]

def ofList (items : List α) : OrdSet α :=
  items.foldr insert ∅

@[simp]
theorem mem_ofList : item ∈ ofList items ↔ item ∈ items := by
  induction items with
  | nil => simp [ofList]
  | cons head tail ih =>
    rw [mem_cons, ← ih]
    exact mem_insert

def size (members : OrdSet α) : ℕ := members.toList.length

def toFinset (members : OrdSet α) : Finset α := ⟨members.toList, members.nodup⟩

@[simp]
theorem mem_toFinset : item ∈ members.toFinset ↔ item ∈ members := Iff.rfl

@[simp]
theorem card_toFinset : members.toFinset.card = members.size := rfl

theorem toFinset_insert : (members.insert item).toFinset = Insert.insert item members.toFinset := by
  ext other
  simp

theorem toFinset_erase : (members.erase item).toFinset = members.toFinset.erase item := by
  ext other
  simp

end OrdSet

end IronCache
