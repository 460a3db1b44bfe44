import Mathlib.Data.List.Basic

/-!
# Journals of keyed changes

A keyed collection as a function, the changes made to it, and what replaying them gives.
-/

namespace IronCache

open List

inductive Change (κ : Type u) (β : Type v) where
  | put (key : κ) (value : β)
  | remove (key : κ)

namespace Change

variable {κ : Type u} {β : Type v} [DecidableEq κ]

def key : Change κ β → κ
  | .put key _ => key
  | .remove key => key

/-- What the change leaves under its key. -/
def value : Change κ β → Option β
  | .put _ value => some value
  | .remove _ => none

def apply (held : κ → Option β) (change : Change κ β) : κ → Option β :=
  Function.update held change.key change.value

def replay (held : κ → Option β) (changes : List (Change κ β)) : κ → Option β :=
  changes.foldl apply held

section

variable (held : κ → Option β)
include held

@[simp]
theorem replay_nil : replay held [] = held := rfl

theorem replay_append (before after : List (Change κ β)) :
    replay held (before ++ after) = replay (replay held before) after :=
  foldl_append

theorem replay_concat (changes : List (Change κ β)) (last : Change κ β) :
    replay held (changes ++ [last]) = apply (replay held changes) last :=
  replay_append held changes [last]

theorem apply_of_ne {change : Change κ β} {key : κ} (other : change.key ≠ key) :
    apply held change key = held key :=
  Function.update_of_ne other.symm _ _

@[simp]
theorem apply_key (change : Change κ β) : apply held change change.key = change.value :=
  Function.update_self _ _ _

theorem replay_of_untouched {changes : List (Change κ β)} {key : κ}
    (untouched : ∀ change ∈ changes, change.key ≠ key) : replay held changes key = held key := by
  induction changes generalizing held with
  | nil => rfl
  | cons change changes ih =>
    have rest := ih (apply held change) fun other member =>
      untouched other (mem_cons_of_mem _ member)
    exact rest.trans (apply_of_ne held (untouched change mem_cons_self))

end

/-- A journal relates two collections at every key that it touches or that they are related at:
the last change of a key decides. -/
theorem replay_rel {relation : Option β → Option β → Prop} (reflexive : ∀ held, relation held held)
    {left right : κ → Option β} {changes : List (Change κ β)} {key : κ}
    (agree : (∀ change ∈ changes, change.key ≠ key) → relation (left key) (right key)) :
    relation (replay left changes key) (replay right changes key) := by
  induction changes generalizing left right with
  | nil => exact agree fun _ member => absurd member not_mem_nil
  | cons change changes ih =>
    refine ih (fun rest => ?_)
    by_cases here : change.key = key
    · subst here
      rw [apply_key, apply_key]
      exact reflexive _
    rw [apply_of_ne _ here, apply_of_ne _ here]
    apply agree
    intro other member
    rcases mem_cons.mp member with rfl | member
    · exact here
    · exact rest other member

/-- A journal brings two collections together at every key that it touches or that they agree
on. -/
theorem replay_congr {left right : κ → Option β} {changes : List (Change κ β)} {key : κ}
    (agree : (∀ change ∈ changes, change.key ≠ key) → left key = right key) :
    replay left changes key = replay right changes key :=
  replay_rel (fun _ => rfl) agree

theorem replay_filter (admits : κ → Bool) (held : κ → Option β) (changes : List (Change κ β))
    {key : κ} (admitted : admits key = true) :
    replay held (changes.filter (admits ·.key)) key = replay held changes key := by
  induction changes generalizing held with
  | nil => rfl
  | cons change changes ih =>
    by_cases here : admits change.key = true
    · rw [filter_cons, if_pos here]
      exact ih (apply held change)
    rw [filter_cons, if_neg here, ih held]
    refine replay_congr fun _ => (apply_of_ne held ?_).symm
    rintro rfl
    exact here admitted

/-- What a replay leaves was there before or was put by a change. -/
theorem of_replay_eq_some {held : κ → Option β} {changes : List (Change κ β)} {key : κ} {value : β}
    (found : replay held changes key = some value) : held key = some value ∨ .put key value ∈ changes := by
  induction changes generalizing held with
  | nil => exact .inl found
  | cons change changes ih =>
    rcases ih found with before | later
    · by_cases here : change.key = key
      · subst here
        rw [apply_key] at before
        cases change with
        | put key other =>
          cases before
          exact .inr mem_cons_self
        | remove key => cases before
      · rw [apply_of_ne held here] at before
        exact .inl before
    · exact .inr (mem_cons_of_mem _ later)

variable {γ : Type w}

/-- The change as seen through a view of the values. -/
def map (view : β → γ) : Change κ β → Change κ γ
  | .put key value => .put key (view value)
  | .remove key => .remove key

theorem replay_map (view : β → γ) (held : κ → Option β) (changes : List (Change κ β)) (key : κ) :
    (replay held changes key).map view =
      replay (fun key => (held key).map view) (changes.map (map view)) key := by
  induction changes generalizing held with
  | nil => rfl
  | cons change changes ih =>
    refine (ih (apply held change)).trans (congrFun (congrArg (replay · _) ?_) key)
    funext other
    unfold apply
    cases change with
    | put name value =>
      rcases eq_or_ne other name with rfl | away
      · simp [Change.key, Change.value, map]
      · simp [Change.key, map, Function.update_of_ne away]
    | remove name =>
      rcases eq_or_ne other name with rfl | away
      · simp [Change.key, Change.value, map]
      · simp [Change.key, map, Function.update_of_ne away]

end Change

end IronCache
