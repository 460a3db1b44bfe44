import IronCache.Lib.OrdSet
import Mathlib.Algebra.Ring.Nat

/-!
# Ordered finite maps

A finite map kept as its list of bindings in strictly increasing key order.
-/

namespace IronCache

open List

/-- A map as its bindings in ascending order of the keys. -/
structure OrdMap (κ : Type u) (β : Type v) [LinearOrder κ] where
  toList : List (κ × β)
  sorted : toList.Pairwise (·.1 < ·.1)

namespace OrdMap

variable {κ : Type u} {β : Type v} [LinearOrder κ]

instance [DecidableEq β] : DecidableEq (OrdMap κ β) := fun left right =>
  decidable_of_iff (left.toList = right.toList) <| by
    cases left
    cases right
    simp

def empty : OrdMap κ β := ⟨[], .nil⟩

instance : EmptyCollection (OrdMap κ β) := ⟨empty⟩

instance : Inhabited (OrdMap κ β) := ⟨empty⟩

def get? (bindings : OrdMap κ β) (key : κ) : Option β :=
  bindings.toList.lookup key

@[simp]
theorem get?_empty : (∅ : OrdMap κ β).get? key = none := rfl

private theorem lookup_cons_ite (head : κ × β) (tail : List (κ × β)) :
    (head :: tail).lookup key = if key = head.1 then some head.2 else tail.lookup key := by
  obtain ⟨headKey, headValue⟩ := head
  by_cases same : key = headKey
  · simp [same]
  · simp [lookup_cons, same, beq_eq_false_iff_ne.mpr same]

variable {key : κ} {value : β} {bindings pairs : List (κ × β)} {left : OrdMap κ β} {γ : Type w}

private theorem lookup_eq_some_iff (sorted : bindings.Pairwise (·.1 < ·.1)) :
    bindings.lookup key = some value ↔ (key, value) ∈ bindings := by
  induction bindings with
  | nil => simp
  | cons head tail ih =>
    obtain ⟨below, tailSorted⟩ := pairwise_cons.mp sorted
    obtain ⟨headKey, headValue⟩ := head
    by_cases same : key = headKey
    · subst same
      have absent : ∀ other, (key, other) ∉ tail := fun other member =>
        lt_irrefl key (below _ member)
      simp [absent, eq_comm]
    · simp [lookup_cons_ite, same, ih tailSorted]

/-- The bindings listed are exactly those that lookup finds. -/
theorem mem_toList {bindings : OrdMap κ β} :
    (key, value) ∈ bindings.toList ↔ bindings.get? key = some value :=
  (lookup_eq_some_iff bindings.sorted).symm

theorem keys_nodup (bindings : OrdMap κ β) : (bindings.toList.map Prod.fst).Nodup :=
  pairwise_map.mpr (bindings.sorted.imp fun less => less.ne)

@[ext]
theorem ext {right : OrdMap κ β} (same : ∀ key, left.get? key = right.get? key) : left = right := by
  have nodup (bindings : OrdMap κ β) : bindings.toList.Nodup := .of_map _ bindings.keys_nodup
  have members : ∀ binding, binding ∈ left.toList ↔ binding ∈ right.toList := fun binding => by
    rw [mem_toList, mem_toList, same]
  have lists : left.toList = right.toList :=
    ((perm_ext_iff_of_nodup (nodup left) (nodup right)).mpr members).eq_of_pairwise
      (fun _ _ _ _ less more => absurd less more.asymm) left.sorted right.sorted
  cases left
  simp_all

private def insertList (key : κ) (value : β) : List (κ × β) → List (κ × β)
  | [] => [(key, value)]
  | head :: tail =>
    if key < head.1 then (key, value) :: head :: tail
    else if key = head.1 then (key, value) :: tail
    else head :: insertList key value tail

private theorem mem_insertList (member : other ∈ insertList key value bindings) :
    other = (key, value) ∨ other ∈ bindings := by
  induction bindings with
  | nil => exact .inl (by simpa [insertList] using member)
  | cons head tail ih =>
    simp only [insertList] at member
    split at member
    · exact mem_cons.mp member
    split at member
    · rcases mem_cons.mp member with same | inTail
      · exact .inl same
      · exact .inr (mem_cons_of_mem _ inTail)
    rcases mem_cons.mp member with same | inTail
    · exact .inr (same ▸ mem_cons_self)
    · exact (ih inTail).imp_right (mem_cons_of_mem _)

private theorem insertList_sorted (key : κ) (value : β) (sorted : bindings.Pairwise (·.1 < ·.1)) :
    (insertList key value bindings).Pairwise (·.1 < ·.1) := by
  induction bindings with
  | nil => simp [insertList]
  | cons head tail ih =>
    obtain ⟨below, tailSorted⟩ := pairwise_cons.mp sorted
    simp only [insertList]
    split
    · rename_i less
      refine pairwise_cons.mpr ⟨fun other member => ?_, sorted⟩
      rcases mem_cons.mp member with rfl | member
      · exact less
      · exact less.trans (below other member)
    split
    · rename_i same
      exact pairwise_cons.mpr ⟨fun other member => same ▸ below other member, tailSorted⟩
    rename_i notLess notSame
    refine pairwise_cons.mpr ⟨fun other member => ?_, ih tailSorted⟩
    rcases mem_insertList member with rfl | member
    · exact lt_of_le_of_ne (not_lt.mp notLess) fun same => notSame same.symm
    · exact below other member

private theorem lookup_insertList : (insertList key value bindings).lookup other =
      if other = key then some value else bindings.lookup other := by
  induction bindings with
  | nil => simp [insertList, lookup_cons_ite]
  | cons head tail ih =>
    simp only [insertList]
    split
    · rw [lookup_cons_ite]
    split
    · rename_i sameHead
      simp only [lookup_cons_ite, ← sameHead]
      split <;> rfl
    rename_i notSame
    simp only [lookup_cons_ite, ih]
    split
    · rename_i atHead
      rw [if_neg fun same => notSame (same.symm.trans atHead)]
    · rfl

private theorem sum_lookup (measure : κ × β → ℕ) (sorted : bindings.Pairwise (·.1 < ·.1)) :
    (bindings.map measure).sum = ((bindings.filter fun binding => binding.1 ≠ key).map measure).sum +
      (bindings.lookup key).elim 0 fun value => measure (key, value) := by
  induction bindings with
  | nil => rfl
  | cons head tail ih =>
    obtain ⟨below, tailSorted⟩ := pairwise_cons.mp sorted
    have rest := ih tailSorted
    rw [lookup_cons_ite]
    by_cases here : key = head.1
    · subst here
      have absent : tail.lookup head.1 = none := by
        apply Option.eq_none_iff_forall_ne_some.mpr
        intro value found
        have member := (lookup_eq_some_iff tailSorted).mp found
        exact lt_irrefl head.1 (below (head.1, value) member)
      simpa [absent, Nat.add_comm] using rest
    · simp [here, Ne.symm here, rest, Nat.add_assoc]

section

variable (bindings : OrdMap κ β) (key : κ) (value : β)

def insert (bindings : OrdMap κ β) (key : κ) (value : β) : OrdMap κ β :=
  ⟨insertList key value bindings.toList, insertList_sorted key value bindings.sorted⟩

theorem get?_insert (other : κ) : (bindings.insert key value).get? other = if other = key then some value
      else bindings.get? other :=
  lookup_insertList

/-- A later binding of a key wins. -/
def insertAll (bindings : OrdMap κ β) (pairs : List (κ × β)) : OrdMap κ β :=
  pairs.foldl (fun held pair => held.insert pair.1 pair.2) bindings

theorem get?_insertAll (distinct : (pairs.map Prod.fst).Nodup) :
    (bindings.insertAll pairs).get? key = some value ↔
      (key, value) ∈ pairs ∨ key ∉ pairs.map Prod.fst ∧ bindings.get? key = some value := by
  induction pairs generalizing bindings with
  | nil => simp [insertAll]
  | cons pair pairs ih =>
    obtain ⟨fresh, rest⟩ := nodup_cons.mp distinct
    change ((bindings.insert pair.1 pair.2).insertAll pairs).get? key = some value ↔ _
    rw [ih _ rest, get?_insert]
    by_cases here : key = pair.1
    · subst here
      have absent : ∀ other, (pair.1, other) ∉ pairs := fun other member =>
        fresh (mem_map.mpr ⟨_, member, rfl⟩)
      simp [absent, Prod.ext_iff, eq_comm]
    · simp [here, Prod.ext_iff]

/-- The bindings of a map in any order give the map. -/
theorem insertAll_perm {bindings : OrdMap κ β} (perm : pairs.Perm bindings.toList) :
    (∅ : OrdMap κ β).insertAll pairs = bindings := by
  have distinct : (pairs.map Prod.fst).Nodup :=
    (perm.map Prod.fst).nodup_iff.mpr bindings.keys_nodup
  apply ext
  intro key
  apply Option.ext
  intro value
  rw [get?_insertAll _ _ _ distinct, perm.mem_iff, mem_toList]
  simp

def erase (bindings : OrdMap κ β) (key : κ) : OrdMap κ β :=
  ⟨bindings.toList.filter fun binding => binding.1 ≠ key, bindings.sorted.filter _⟩

theorem get?_erase : (bindings.erase key).get? other = if other = key then none else bindings.get? other := by
  apply Option.ext
  intro value
  rw [← mem_toList]
  by_cases same : other = key
  · simp [erase, same]
  · simp [erase, same, mem_toList]

def insertIfAbsent (bindings : OrdMap κ β) (key : κ) (value : β) : OrdMap κ β :=
  if (bindings.get? key).isSome then bindings else bindings.insert key value

theorem get?_insertIfAbsent : (bindings.insertIfAbsent key value).get? other =
      if other = key then some ((bindings.get? key).getD value) else bindings.get? other := by
  unfold insertIfAbsent
  cases found : bindings.get? key with
  | none => simp [get?_insert]
  | some held =>
    by_cases same : other = key
    · simp [same, found]
    · simp [same]

/-- The bindings that pass a test, counted over distinct keys, are at most the keys of a
finite set that covers them. -/
theorem countP_le_card (test : κ × β → Bool) (keys : Finset κ)
    (covers : ∀ key value, bindings.get? key = some value → test (key, value) = true → key ∈ keys) :
    bindings.toList.countP test ≤ keys.card := by
  have distinct : ((bindings.toList.filter test).map Prod.fst).Nodup :=
    bindings.keys_nodup.sublist (filter_sublist.map _)
  have counted : bindings.toList.countP test = ((bindings.toList.filter test).map Prod.fst).length := by
    rw [countP_eq_length_filter, length_map]
  rw [counted, ← toFinset_card_of_nodup distinct]
  refine Finset.card_le_card fun key member => ?_
  simp only [mem_toFinset, mem_map, mem_filter] at member
  obtain ⟨⟨_, value⟩, ⟨listed, passes⟩, rfl⟩ := member
  exact covers _ value (mem_toList.mp listed) passes

def mapValues {γ : Type w} (view : β → γ) (bindings : OrdMap κ β) : OrdMap κ γ :=
  ⟨bindings.toList.map fun binding => (binding.1, view binding.2), pairwise_map.mpr bindings.sorted⟩

theorem get?_mapValues : (bindings.mapValues view).get? key = (bindings.get? key).map view := by
  obtain ⟨bindings, sorted⟩ := bindings
  change (bindings.map fun binding => (binding.1, view binding.2)).lookup key = (bindings.lookup key).map view
  clear sorted
  induction bindings with
  | nil => rfl
  | cons head tail ih =>
    rw [map_cons, lookup_cons_ite, lookup_cons_ite, ih]
    split <;> rfl

theorem sum_erase (measure : κ × β → ℕ) :
    (bindings.toList.map measure).sum = ((bindings.erase key).toList.map measure).sum +
      (bindings.get? key).elim 0 fun value => measure (key, value) :=
  sum_lookup measure bindings.sorted

theorem erase_insert : (bindings.insert key value).erase key = bindings.erase key := by
  apply ext
  intro other
  rw [get?_erase, get?_erase, get?_insert]
  split <;> rfl

theorem sum_insert (measure : κ × β → ℕ) : ((bindings.insert key value).toList.map measure).sum =
      ((bindings.erase key).toList.map measure).sum + measure (key, value) := by
  rw [sum_erase (bindings.insert key value) key measure, erase_insert, get?_insert, if_pos rfl]
  rfl

end

/-- Writing one value at a list of keys leaves the other keys as they were. -/
theorem get?_foldl {write : OrdMap κ β → κ → OrdMap κ β} {value : β}
    (single : ∀ bindings head key held, (write bindings head).get? key = some held →
      key = head ∧ held = value ∨ bindings.get? key = some held)
    (keys : List κ) (bindings : OrdMap κ β)
    (found : (keys.foldl write bindings).get? key = some held) :
    key ∈ keys ∧ held = value ∨ bindings.get? key = some held := by
  induction keys generalizing bindings with
  | nil => exact .inr found
  | cons head tail ih =>
    rcases ih _ found with ⟨member, same⟩ | earlier
    · exact .inl ⟨.tail _ member, same⟩
    rcases single bindings head key held earlier with ⟨rfl, same⟩ | kept
    · exact .inl ⟨.head _, same⟩
    · exact .inr kept

theorem get?_foldl_insert (keys : List κ) (bindings : OrdMap κ β) (value : β)
    (found : (keys.foldl (fun held key => held.insert key value) bindings).get? key = some held) :
    key ∈ keys ∧ held = value ∨ bindings.get? key = some held := by
  refine get?_foldl (fun bindings head key held found => ?_) keys bindings found
  grind [get?_insert]

theorem get?_foldl_insertIfAbsent (keys : List κ) (bindings : OrdMap κ β) (value : β)
    (found : (keys.foldl (fun held key => held.insertIfAbsent key value) bindings).get? key =
      some held) :
    key ∈ keys ∧ held = value ∨ bindings.get? key = some held := by
  refine get?_foldl (fun bindings head key held found => ?_) keys bindings found
  cases before : bindings.get? head <;> grind [get?_insertIfAbsent]

end OrdMap

end IronCache
