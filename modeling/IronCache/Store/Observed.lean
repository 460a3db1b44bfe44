import IronCache.Store.Steered

/-!
# What the observer is told

Moves of the funnel leave a trace whose replay gives the contents after them.
-/

namespace IronCache.Store

open List

namespace ShardStore

section Told

variable {E : Type} {rules : Rules}

/-- A traced step that names the databases it may name and, where its input is well formed, puts
well-formed entries only. -/
def Told (rules : Rules) (store next : ShardStore E) : Prop :=
  ∃ events, Traced store next events ∧ (∀ event ∈ events, rules.names event.place.1) ∧
    (rules.sound → store.Formed → ∀ event ∈ events, event.Formed)

variable {store next middle : ShardStore E} {event : WriteEvent} {key : Bytes} {entry : Entry}

theorem Told.quiet (hooks : SameHooks store next) (same : next.contents = store.contents) :
    Told rules store next :=
  ⟨[], .quiet hooks same, fun _ member => absurd member not_mem_nil,
    fun _ _ _ member => absurd member not_mem_nil⟩

theorem Told.refl (store : ShardStore E) : Told rules store store := .quiet (.refl store) rfl

theorem Told.one (traced : Traced store next [event]) (named : rules.names event.place.1)
    (formed : rules.sound → store.Formed → event.Formed) : Told rules store next := by
  refine ⟨[event], traced, fun other member => ?_, fun ok before other member => ?_⟩
  · cases mem_singleton.mp member
    exact named
  · cases mem_singleton.mp member
    exact formed ok before

theorem Told.trans (first : Told rules store middle) (second : Told rules middle next) :
    Told rules store next := by
  obtain ⟨before, trace, places, images⟩ := first
  obtain ⟨after, more, others, rest⟩ := second
  refine ⟨before ++ after, trace.trans more, fun event member => ?_, fun ok formed event member => ?_⟩
  · exact (mem_append.mp member).elim (places event) (others event)
  · rcases mem_append.mp member with early | late
    · exact images ok formed event early
    · exact rest ok (trace.formed formed (images ok formed)) event late

/-- Telling the post-image of an entry accounts for whatever happened in its place. -/
theorem told_observePut (named : rules.names db) (elsewhere : Elsewhere store middle (store.dbIndex db, key))
    (found : middle.find (store.dbIndex db) key = some entry)
    (formed : rules.sound → store.Formed → entry.Formed key) :
    Told rules store (middle.observePut db (store.dbIndex db) key) := by
  have traced : Traced store (middle.observePut db (store.dbIndex db) key) [.put db key entry] := by
    refine traced_observePut elsewhere.hooks rfl found (funext fun other => ?_)
    by_cases here : other = (store.dbIndex db, key)
    · subst here
      rw [Function.update_self]
      unfold contents
      rw [found]
      rfl
    · rw [Function.update_of_ne here, elsewhere.contents other here]
  exact .one traced named formed

theorem setEntryExpire_of_find (found : store.find idx key = some entry) (deadline : Option ℕ) :
    store.setEntryExpire idx key deadline =
      store.setEntry idx key (entry.setExpireAt deadline) := by
  unfold setEntryExpire
  rw [found]

theorem Elsewhere.trans (first : Elsewhere store middle place) (second : Elsewhere middle next place) :
    Elsewhere store next place where
  hooks := first.hooks.trans second.hooks
  contents := fun other away => (second.contents other away).trans (first.contents other away)

private theorem dbIndex_setEntry : (store.setEntry idx key entry).dbIndex db = store.dbIndex db := by
  unfold dbIndex setEntry setTable
  rw [length_set]

private theorem formed_editAll (formed : entry.Formed key) : (entry.editAll edits).Formed key := by
  obtain ⟨name, value, expireAt, freq⟩ := entry
  cases value with
  | str encoding bytes => exact formed
  | coll value =>
    refine ⟨formed.1, ?_⟩
    have sound : value.Sound := formed.2
    induction edits generalizing value with
    | nil => exact sound
    | cons edit edits ih =>
      exact ih _ ⟨formed.1, CollVal.Sound.edit sound edit⟩ (sound.edit edit)

/-- A traced step over an entry that a closure edited in silence. -/
theorem Traced.over_edit (present : 0 < store.databases) (named : event.place = (db, key))
    (traced : Traced (store.setEntry (store.dbIndex db) key edited) next [event]) :
    Traced store next [event] := by
  refine .over (elsewhere_setEntry (dbIndex_lt present db) key edited) traced ?_
  refine ⟨event, mem_singleton_self event, ?_⟩
  cases event with
  | put _ _ image =>
    cases named
    rfl
  | remove _ _ =>
    cases named
    rfl

end Told

variable {E : Type} [EvictionPolicy E] {rules : Rules}

variable {store next : ShardStore E} {db : ℕ} {key : Bytes} {entry : Entry}

private theorem told_remove (present : 0 < store.databases) (named : rules.names db) :
    Told rules store (store.removeObject db (store.dbIndex db) key).2 := by
  rw [removeObject_eq]
  cases found : store.find (store.dbIndex db) key with
  | some entry =>
    exact .one (traced_removeObjectCrediting present db _ found) named fun _ _ => trivial
  | none =>
    obtain ⟨clock, versions, watched⟩ := touchWatch_eq db key store
    rw [removeObjectCrediting_of_absent found, watched]
    exact .quiet ⟨rfl, rfl, rfl, rfl, rfl⟩ rfl

omit [EvictionPolicy E] in
private theorem told_retime (present : 0 < store.databases) (named : rules.names db)
    (found : store.find (store.dbIndex db) key = some entry) :
    Told rules store (((store.touchWatch db key).setEntryExpire (store.dbIndex db) key
      deadline).observePut db (store.dbIndex db) key) := by
  obtain ⟨clock, versions, watched⟩ := touchWatch_eq db key store
  have inside := dbIndex_lt present db
  have timed := @setEntryExpire_of_find E
    { store with versionClock := clock, watchVersions := versions } _ _ _ found deadline
  rw [watched, timed]
  refine @told_observePut E rules store _ key (entry.setExpireAt deadline) db named ⟨?_, ?_⟩ ?_
    fun _ formed => ?_
  · exact ⟨rfl, rfl, rfl, rfl, length_set⟩
  · exact (elsewhere_setEntry inside key (entry.setExpireAt deadline)).contents
  · exact find_setEntry_self inside key (entry.setExpireAt deadline)
  · have held : entry.Formed key := Formed.find formed found
    exact held

theorem told_editRemove (present : 0 < store.databases) (named : rules.names db) :
    Told rules store ((store.setEntry (store.dbIndex db) key edited).removeObjectCrediting db
      (store.dbIndex db) key oldBytes).2 := by
  have inside := dbIndex_lt present db
  have remains : 0 < (store.setEntry (store.dbIndex db) key edited).databases := by
    rw [(kept_setEntry _ _ _ store).databases]
    exact present
  have traced := traced_removeObjectCrediting remains db oldBytes
    (by rw [dbIndex_setEntry]; exact find_setEntry_self inside key edited)
  rw [dbIndex_setEntry] at traced
  have whole : Traced store _ [.remove db key] := traced.over_edit present rfl
  exact .one whole named fun _ _ => trivial

/-- The edits of a closure, once it answers `Mutated`: the emptied collection is removed, any other
told as it stands. -/
private theorem told_edit (present : 0 < store.databases) (named : rules.names db)
    (formed : rules.sound → store.Formed → edited.Formed key) (before after : Option ℕ) :
    Told rules store ((store.setEntry (store.dbIndex db) key edited).commitEdit db
      (store.dbIndex db) key oldBytes edited before after) := by
  have inside := dbIndex_lt present db
  have away := elsewhere_setEntry inside key edited
  have held := find_setEntry_self inside key edited
  unfold commitEdit
  split
  · exact told_editRemove present named
  dsimp only
  obtain ⟨clock, versions, watched⟩ := touchWatch_eq db key (store.setEntry (store.dbIndex db) key edited)
  rw [watched]
  -- The accounts and the policy are touched only where the weight has changed.
  generalize weighed : (if edited.accountedBytes = oldBytes then _ else _) = middle
  have kept : Elsewhere store middle (store.dbIndex db, key) ∧
      middle.find (store.dbIndex db) key = some edited := by
    subst weighed
    split
    · exact ⟨⟨⟨rfl, rfl, rfl, rfl, length_set⟩, away.contents⟩, held⟩
    · exact ⟨⟨⟨rfl, rfl, rfl, rfl, length_set⟩, away.contents⟩, held⟩
  split
  · exact told_observePut named kept.1 kept.2 formed
  have room : store.dbIndex db < middle.databases := kept.1.hooks.databases ▸ inside
  rw [setEntryExpire_of_find kept.2]
  exact told_observePut named (kept.1.trans (elsewhere_setEntry room key _))
    (find_setEntry_self room key _) formed

/-- A move of the funnel is told, or it writes a deadline in place. -/
theorem Move.told_or_redates (funnelled : ¬rules.direct) (present : 0 < store.databases)
    (move : Move rules store next) :
    Told rules store next ∨ rules.redates ∧ ∃ idx key entry deadline, idx < store.databases ∧
      store.find idx key = some entry ∧ next = store.setEntryExpire idx key deadline := by
  cases move with
  | access inside found same =>
    exact .inl (.quiet (sameHooks_setTable _ _ store) (contents_setEntry_of_bare inside found same))
  | expired | pool | victim | forget | reRegister =>
    exact .inl (.quiet ⟨rfl, rfl, rfl, rfl, rfl⟩ rfl)
  | watch db =>
    obtain ⟨clock, versions, watched⟩ := touchAllWatchesInDb_eq db store
    rw [watched]
    exact .inl (.quiet ⟨rfl, rfl, rfl, rfl, rfl⟩ rfl)
  | put named formed =>
    obtain ⟨image, same, traced⟩ := traced_putObject present _ _ _
    exact .inl (.one traced named fun ok before =>
      Entry.Formed.of_bare same (formed ok before))
  | remove named key => exact .inl (told_remove present named)
  | retime named found deadline => exact .inl (told_retime present named found)
  | edit accessed named found same edits before after =>
    refine .inl (told_edit present named (fun _ formed => formed_editAll ?_) before after)
    exact Entry.Formed.of_bare same (Formed.find formed found)
  | editRemove accessed named found same edits =>
    exact .inl (told_editRemove present named)
  | redate allowed inside found deadline =>
    exact .inr ⟨allowed, _, _, _, deadline, inside, found, rfl⟩
  | swap allowed => exact absurd allowed funnelled
  | purge allowed => exact absurd allowed funnelled

theorem Moves.told (funnelled : ¬rules.direct) (dated : ¬rules.redates)
    (present : 0 < store.databases) (moves : Moves rules store next) : Told rules store next := by
  induction moves with
  | refl => exact .refl store
  | tail before move ih =>
    have stands := Moves.present before present
    have told := (move.told_or_redates funnelled stands).resolve_right fun past => dated past.1
    exact ih.trans told

omit [EvictionPolicy E] in
/-- Counting an access changes the frequency of the entry at most. -/
theorem accessed_spec (inside : idx < store.databases) (found : store.find idx key = some entry) :
    SameHooks store (if store.saving = true then store else store.setEntry idx key entry.bumpFreq) ∧
      (if store.saving = true then store
        else store.setEntry idx key entry.bumpFreq).contents = store.contents ∧
      ∃ again, (if store.saving = true then store
        else store.setEntry idx key entry.bumpFreq).find idx key = some again ∧ again.bare = entry.bare := by
  split
  · exact ⟨.refl store, rfl, entry, found, rfl⟩
  refine ⟨sameHooks_setTable _ _ store, ?_, entry.bumpFreq, ?_, rfl⟩
  · exact contents_setEntry_of_bare inside found rfl
  · exact (find_setEntry inside _ _ _ _).trans (if_pos ⟨rfl, rfl⟩)

/-- `Mutated` from a closure of the read-only `rmw` writes the deadline and nothing else. -/
theorem rmw_mutated (present : 0 < store.databases)
    (found : store.find (store.dbIndex db) key = some entry) (live : entry.isExpired now = false)
    (mutated : (f (some entry.occupied)).action = .mutated) : SameHooks store (store.rmw db key now f).2 ∧
      (store.rmw db key now f).2.contents = Function.update store.contents (store.dbIndex db, key)
        (some { entry.bare with
          expireAt := resolveExpire (f (some entry.occupied)).expire entry.expireAt }) := by
  have inside := dbIndex_lt present db
  unfold rmw
  dsimp only
  rw [expireIfDue_of_live found live]
  rw [if_pos rfl, found]
  dsimp only
  rw [mutated]
  dsimp only
  obtain ⟨hooks, same, again, kept, bare⟩ := accessed_spec inside found
  generalize (if store.saving = true then store
    else store.setEntry (store.dbIndex db) key entry.bumpFreq) = middle at hooks same kept ⊢
  generalize resolveExpire (f (some entry.occupied)).expire entry.expireAt = deadline
  rw [← hooks.databases] at inside
  split
  · rename_i unchanged
    subst unchanged
    refine ⟨hooks, same.trans (Function.update_eq_self_iff.mpr ?_).symm⟩
    unfold contents
    rw [found]
    rfl
  unfold setEntryExpire
  rw [kept]
  refine ⟨hooks.trans (sameHooks_setTable _ _ middle), ?_⟩
  have edited : (again.setExpireAt deadline).bare = { entry.bare with expireAt := deadline } := by
    rw [← bare]
    rfl
  rw [contents_setEntry inside, same, edited]

end ShardStore

end IronCache.Store
