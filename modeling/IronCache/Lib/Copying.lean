import IronCache.Lib.Journal

/-!
# Copying a collection while it changes

A copy is taken key by key from a collection that goes on changing, and the journal of the changes
is replayed on it afterwards. Values count by what is seen of them.
-/

namespace IronCache

open Change

variable {κ : Type u} {β : Type v} {γ : Type w} [DecidableEq κ]

/-- A journal makes two collections look alike at every key that it touches or where they do. -/
theorem Change.see_replay (see : Option β → γ) {left right : κ → Option β}
    {changes : List (Change κ β)} {key : κ}
    (agree : (∀ change ∈ changes, change.key ≠ key) → see (left key) = see (right key)) :
    see (replay left changes key) = see (replay right changes key) :=
  @replay_rel κ β _ (fun left right => see left = see right) (fun _ => rfl) left right changes key agree

/-- At a key, the copy leads to the source by way of the changes that are pending. -/
def Follows (see : Option β → γ) (copy source : κ → Option β) (pending : List (Change κ β))
    (key : κ) : Prop :=
  see (replay copy pending key) = see (source key)

namespace Follows

variable {see : Option β → γ} {copy other source : κ → Option β} {pending : List (Change κ β)}
  {change : Change κ β} {key : κ}

theorem extend (follows : Follows see copy source pending key) (changes : List (Change κ β)) :
    Follows see copy (replay source changes) (pending ++ changes) key := by
  unfold Follows
  rw [replay_append]
  exact see_replay see fun _ => follows

/-- The copy may differ where a pending change will decide, and by what is not seen. -/
theorem congr (follows : Follows see copy source pending key)
    (agree : (∀ change ∈ pending, change.key ≠ key) → see (other key) = see (copy key)) :
    Follows see other source pending key :=
  (see_replay see agree).trans follows

theorem advance (follows : Follows see copy source (change :: pending) key)
    (made : see (other key) = see (apply copy change key)) :
    Follows see other source pending key := by
  have later : Follows see (apply copy change) source pending key := follows
  exact later.congr fun _ => made

theorem filter (admits : κ → Bool) (follows : Follows see copy source (before ++ (changes ++ after)) key)
    (admitted : admits key = true) :
    Follows see copy source (before ++ changes.filter (admits ·.key) ++ after) key := by
  unfold Follows at follows ⊢
  rw [replay_append, replay_append] at follows ⊢
  rw [← follows]
  exact congrArg see (replay_congr fun _ => replay_filter admits _ changes admitted)

end Follows

/-- The copy while it is taken: the source was `base` at the start and has the journal since. The
copy has to come to `aim` with the journal on it, which is the source but where that was gone. -/
structure Copying (see : Option β → γ) (gone : Option β → Prop)
    (base aim source copy : κ → Option β) (journal : List (Change κ β)) (passed : κ → Prop) : Prop where
  journalled : source = replay base journal
  merged : ∀ key, ¬gone (base key) → see (aim key) = see (base key)
  behind : ∀ key, passed key → Follows see copy (replay aim journal) journal key
  ahead : ∀ key, ¬passed key → gone (base key) → see (copy key) = see (aim key)

namespace Copying

variable {see : Option β → γ} {gone : Option β → Prop} {base aim source copy next : κ → Option β}
  {journal : List (Change κ β)} {passed beyond : κ → Prop}

theorem start (merged : ∀ key, ¬gone (base key) → see (aim key) = see (base key))
    (left : ∀ key, gone (base key) → see (copy key) = see (aim key)) (none : ∀ key, ¬passed key) :
    Copying see gone base aim base copy [] passed where
  journalled := rfl
  merged := merged
  behind := fun key passed => absurd passed (none key)
  ahead := fun key _ => left key

theorem extend (copying : Copying see gone base aim source copy journal passed)
    (changes : List (Change κ β)) :
    Copying see gone base aim (replay source changes) copy (journal ++ changes) passed where
  journalled := by rw [copying.journalled, replay_append]
  merged := copying.merged
  behind := fun key behind => by
    rw [replay_append]
    exact (copying.behind key behind).extend changes
  ahead := copying.ahead

/-- Keys are passed: each gets what the source has, or is left as it is where that is gone. -/
theorem pass (copying : Copying see gone base aim source copy journal passed)
    (forward : ∀ key, passed key → beyond key) (kept : ∀ key, passed key ∨ ¬beyond key → next key = copy key)
    (taken : ∀ key, beyond key → ¬passed key →
      ¬gone (source key) ∧ next key = source key ∨ gone (source key) ∧ next key = copy key) :
    Copying see gone base aim source next journal beyond where
  journalled := copying.journalled
  merged := copying.merged
  behind := fun key there => by
    by_cases before : passed key
    · exact (copying.behind key before).congr fun _ => by rw [kept key (.inl before)]
    have whole : Follows see aim (replay aim journal) journal key := rfl
    refine whole.congr fun untouched => ?_
    have still : source key = base key := by
      rw [copying.journalled, replay_of_untouched base untouched]
    have passing := taken key there before
    rw [still] at passing
    rcases passing with ⟨present, same⟩ | ⟨nothing, left⟩
    · rw [same, copying.merged key present]
    · rw [left]
      exact copying.ahead key before nothing
  ahead := fun key later nothing => by
    rw [kept key (.inr later)]
    exact copying.ahead key (fun before => later (forward key before)) nothing

end Copying

end IronCache
