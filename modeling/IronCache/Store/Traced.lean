import IronCache.Lib.Journal
import IronCache.Store.Evict

/-!
# What the funnel leaves behind

The contents after a step of the funnel are those before it with the events of the step replayed.
-/

namespace IronCache.Store

open Function

def Entry.bare (entry : Entry) : Entry := { entry with freq := 0 }

namespace WriteEvent

def place : WriteEvent → ℕ × Bytes
  | .put db key _ => (db, key)
  | .remove db key => (db, key)

/-- The event as a change of the tables of a store with so many databases. -/
def change (databases : ℕ) : WriteEvent → Change (ℕ × Bytes) Entry
  | .put db key entry => .put (min db (databases - 1), key) entry.bare
  | .remove db key => .remove (min db (databases - 1), key)

end WriteEvent

def Entry.Formed (entry : Entry) (key : Bytes) : Prop := entry.key = key ∧ entry.value.Sound

def WriteEvent.Formed : WriteEvent → Prop
  | .put _ key entry => entry.Formed key
  | .remove _ _ => True

namespace ShardStore

variable {E : Type}

def contents (store : ShardStore E) (place : ℕ × Bytes) : Option Entry :=
  (store.find place.1 place.2).map Entry.bare

def replayEvents (store : ShardStore E) (events : List WriteEvent) : ℕ × Bytes → Option Entry :=
  Change.replay store.contents (events.map (·.change store.databases))

/-- Nothing the funnel reports or reads has changed. -/
structure SameHooks (store next : ShardStore E) : Prop where
  observed : next.observed = store.observed
  dirtyKeys : next.dirtyKeys = store.dirtyKeys
  passive : next.passive = store.passive
  thresholds : next.encodingThresholds = store.encodingThresholds
  databases : next.databases = store.databases

theorem SameHooks.refl (store : ShardStore E) : SameHooks store store := ⟨rfl, rfl, rfl, rfl, rfl⟩

variable {store middle next : ShardStore E} {idx : ℕ} {key : Bytes} {entry : Entry}

theorem SameHooks.trans (first : SameHooks store middle) (second : SameHooks middle next) :
    SameHooks store next where
  observed := second.observed.trans first.observed
  dirtyKeys := second.dirtyKeys.trans first.dirtyKeys
  passive := second.passive.trans first.passive
  thresholds := second.thresholds.trans first.thresholds
  databases := second.databases.trans first.databases

/-- A step whose events account for every change of the contents and of the dirty keys. -/
structure Traced (store next : ShardStore E) (events : List WriteEvent) : Prop where
  contents : next.contents = store.replayEvents events
  observed : next.observed = store.observed.map (· ++ events)
  dirtyKeys : next.dirtyKeys = store.dirtyKeys.map fun keys =>
    events.foldl (fun keys event => keys.insert (toLex event.place)) keys
  passive : next.passive = store.passive
  thresholds : next.encodingThresholds = store.encodingThresholds
  databases : next.databases = store.databases

theorem Traced.quiet (hooks : SameHooks store next) (same : next.contents = store.contents) :
    Traced store next [] where
  contents := same
  observed := by
    rw [hooks.observed]
    cases store.observed <;> simp
  dirtyKeys := by
    rw [hooks.dirtyKeys]
    cases store.dirtyKeys <;> rfl
  passive := hooks.passive
  thresholds := hooks.thresholds
  databases := hooks.databases

theorem Traced.trans (first : Traced store middle before) (second : Traced middle next after) :
    Traced store next (before ++ after) where
  contents := by
    rw [second.contents]
    unfold replayEvents
    rw [first.contents, first.databases, List.map_append, Change.replay_append]
    rfl
  observed := by
    rw [second.observed, first.observed]
    cases store.observed <;> simp
  dirtyKeys := by
    rw [second.dirtyKeys, first.dirtyKeys]
    cases store.dirtyKeys <;> simp
  passive := second.passive.trans first.passive
  thresholds := second.thresholds.trans first.thresholds
  databases := second.databases.trans first.databases

variable {events : List WriteEvent}

/-- The contents after a traced step, seen through a view of the entries. -/
theorem Traced.view (traced : Traced store next events) (view : Entry → γ) (place : ℕ × Bytes) :
    (next.contents place).map view = Change.replay (fun place => (store.contents place).map view)
        (events.map fun event => (event.change store.databases).map view) place := by
  rw [traced.contents]
  unfold replayEvents
  rw [Change.replay_map, List.map_map]
  rfl

/-- Every resident entry carries its key and a sound value. -/
def Formed (store : ShardStore E) : Prop :=
  ∀ place entry, store.contents place = some entry → entry.Formed place.2

theorem Traced.formed (traced : Traced store next events) (formed : store.Formed)
    (images : ∀ event ∈ events, event.Formed) : next.Formed := by
  intro place entry found
  rw [traced.contents] at found
  rcases Change.of_replay_eq_some found with before | put
  · exact formed place entry before
  obtain ⟨event, member, same⟩ := List.mem_map.mp put
  cases event with
  | put db key image =>
    cases same
    exact images _ member
  | remove db key => cases same

theorem dbIndex_lt (present : 0 < store.databases) (db : ℕ) : store.dbIndex db < store.databases := by
  unfold dbIndex databases at *
  omega

theorem find_setTable (idx : ℕ) (table : OrdMap Bytes Entry) (store : ShardStore E) (other : ℕ)
    (key : Bytes) (inside : idx < store.databases) : (store.setTable idx table).find other key =
      if other = idx then table.get? key else store.find other key := by
  unfold find ShardStore.table setTable
  by_cases here : other = idx
  · subst here
    rw [if_pos rfl, List.getD_eq_getElem?_getD, List.getElem?_set_self inside, Option.getD_some]
  · rw [if_neg here, List.getD_eq_getElem?_getD, List.getElem?_set_ne (Ne.symm here),
      ← List.getD_eq_getElem?_getD]

@[simp]
theorem databases_setTable (idx : ℕ) (table : OrdMap Bytes Entry) (store : ShardStore E) :
    (store.setTable idx table).databases = store.databases :=
  List.length_set

theorem sameHooks_setTable (idx : ℕ) (table : OrdMap Bytes Entry) (store : ShardStore E) :
    SameHooks store (store.setTable idx table) :=
  ⟨rfl, rfl, rfl, rfl, databases_setTable idx table store⟩

theorem find_setEntry (inside : idx < store.databases) (key : Bytes) (entry : Entry) (other : ℕ)
    (name : Bytes) : (store.setEntry idx key entry).find other name =
      if other = idx ∧ name = key then some entry else store.find other name := by
  unfold setEntry
  rw [find_setTable _ _ _ _ _ inside, OrdMap.get?_insert]
  by_cases here : other = idx
  · subst here
    by_cases same : name = key
    · simp [same]
    · simp [same, find]
  · simp [here]

theorem contents_setEntry (inside : idx < store.databases) (key : Bytes) (entry : Entry) :
    (store.setEntry idx key entry).contents =
      update store.contents (idx, key) (some entry.bare) := by
  funext place
  obtain ⟨other, name⟩ := place
  unfold contents
  rw [find_setEntry inside]
  by_cases here : other = idx ∧ name = key
  · obtain ⟨rfl, rfl⟩ := here
    simp
  · have away : (other, name) ≠ (idx, key) := fun same => here (Prod.mk.inj same)
    rw [if_neg here, update_of_ne away]

theorem contents_eraseEntry (inside : idx < store.databases) (key : Bytes) :
    (store.eraseEntry idx key).contents = update store.contents (idx, key) none := by
  funext place
  obtain ⟨other, name⟩ := place
  unfold contents eraseEntry
  rw [find_setTable _ _ _ _ _ inside, OrdMap.get?_erase]
  by_cases here : other = idx ∧ name = key
  · obtain ⟨rfl, rfl⟩ := here
    simp
  have away : (other, name) ≠ (idx, key) := fun same => here (Prod.mk.inj same)
  rw [update_of_ne away]
  by_cases table : other = idx
  · subst table
    rw [if_pos rfl, if_neg fun same => here ⟨rfl, same⟩]
    rfl
  · rw [if_neg table]

theorem contents_setEntry_of_bare (inside : idx < store.databases)
    (found : store.find idx key = some old) (same : entry.bare = old.bare) :
    (store.setEntry idx key entry).contents = store.contents := by
  rw [contents_setEntry inside, same]
  apply update_eq_self_iff.mpr
  unfold contents
  rw [found]
  rfl

theorem contents_withHooks (databases : ℕ) (eviction : E) (place : ℕ × Bytes) :
    (withHooks databases eviction).contents place = none := by
  unfold contents find table withHooks
  rw [List.getD_eq_getElem?_getD, List.getElem?_replicate]
  split <;> rfl

theorem touchWatch_eq (db : ℕ) (key : Bytes) (store : ShardStore E) : ∃ versionClock watchVersions,
      store.touchWatch db key = { store with versionClock, watchVersions } := by
  unfold touchWatch
  split
  · exact ⟨_, _, rfl⟩
  split
  · exact ⟨_, _, rfl⟩
  · exact ⟨_, _, rfl⟩

theorem find_touchWatch : (store.touchWatch db key).find idx name = store.find idx name := by
  obtain ⟨clock, versions, watched⟩ := touchWatch_eq db key store
  rw [watched]
  rfl

theorem touchAllWatchesInDb_eq (db : ℕ) (store : ShardStore E) : ∃ versionClock watchVersions,
      store.touchAllWatchesInDb db = { store with versionClock, watchVersions } := by
  unfold touchAllWatchesInDb
  split
  · exact ⟨_, _, rfl⟩
  rename_i watching
  clear watching
  generalize store.watchVersions.toList = watched
  induction watched generalizing store with
  | nil => exact ⟨_, _, rfl⟩
  | cons slot watched ih =>
    rw [List.foldl_cons]
    split
    · obtain ⟨clock, versions, same⟩ := ih
        { store with
          versionClock := store.versionClock + 1
          watchVersions := store.watchVersions.insert slot.1
            { slot.2 with version := store.versionClock + 1 } }
      exact ⟨clock, versions, same⟩
    · exact ih store

theorem traced_observePut (hooks : SameHooks store middle) (named : idx = store.dbIndex db)
    (found : middle.find idx key = some entry)
    (written : middle.contents = update store.contents (idx, key) (some entry.bare)) :
    Traced store (middle.observePut db idx key) [.put db key entry] := by
  have told : middle.observePut db idx key = (middle.touchDirty db key).notify (.put db key entry) := by
    have same : (middle.touchDirty db key).find idx key = some entry := found
    simp only [observePut, same]
  rw [told]
  subst named
  exact
    { contents := written
      observed := by
        rw [← hooks.observed]
        rfl
      dirtyKeys := by
        rw [← hooks.dirtyKeys]
        rfl
      passive := hooks.passive
      thresholds := hooks.thresholds
      databases := hooks.databases }

variable [EvictionHook E]

theorem removeObjectCrediting_of_find (found : store.find idx key = some entry) :
    (store.removeObjectCrediting db idx key bytes).2 =
      { store.eraseEntry idx key with
        used := store.used - bytes
        eviction := EvictionHook.onRemove db key bytes store.eviction
        versionClock := (store.touchWatch db key).versionClock
        watchVersions := (store.touchWatch db key).watchVersions
        dirtyKeys := store.dirtyKeys.map (·.insert (toLex (db, key)))
        observed := store.observed.map (· ++ [.remove db key]) } := by
  obtain ⟨clock, versions, watched⟩ := touchWatch_eq db key store
  unfold removeObjectCrediting
  rw [watched]
  dsimp only
  rw [show ShardStore.find { store with versionClock := clock, watchVersions := versions } idx key =
    some entry from found]
  rfl

theorem removeObjectCrediting_of_absent (absent : store.find idx key = none) :
    store.removeObjectCrediting db idx key bytes = (false, store.touchWatch db key) := by
  unfold removeObjectCrediting
  dsimp only
  rw [find_touchWatch, absent]

theorem traced_removeObjectCrediting (present : 0 < store.databases) (db : ℕ) (bytes : ℕ)
    (found : store.find (store.dbIndex db) key = some entry) :
    Traced store (store.removeObjectCrediting db (store.dbIndex db) key bytes).2
      [.remove db key] := by
  rw [removeObjectCrediting_of_find found]
  exact ⟨contents_eraseEntry (dbIndex_lt present db) key, rfl, rfl, rfl, rfl, List.length_set⟩

theorem removeObject_eq : store.removeObject db idx key = store.removeObjectCrediting db idx key
      ((store.find idx key).elim 0 Entry.accountedBytes) := by
  unfold removeObject removeObjectCrediting
  dsimp only
  rw [find_touchWatch]
  cases store.find idx key with
  | none => rfl
  | some entry => rfl

theorem contents_removeObject (present : 0 < store.databases)
    (found : store.find (store.dbIndex db) key = some entry) :
    (store.removeObject db (store.dbIndex db) key).2.contents =
      update store.contents (store.dbIndex db, key) none := by
  rw [removeObject_eq, removeObjectCrediting_of_find found]
  exact contents_eraseEntry (dbIndex_lt present db) key

theorem expireIfDue_of_due (found : store.find idx key = some entry) (due : entry.isExpired now = true) :
    store.expireIfDue db idx key now = (false, if store.passive then store else
      { (store.removeObject db idx key).2 with
        lazyExpired := (store.removeObject db idx key).2.lazyExpired + 1 }) := by
  have removed : (store.removeObject db idx key).1 = true := by
    unfold removeObject
    dsimp only
    rw [find_touchWatch, found]
  unfold expireIfDue
  simp only [found, due, removed, if_true]
  split <;> rfl

/-- A put is told with the entry as it now stands, under the frequency it kept. -/
theorem traced_putObject (present : 0 < store.databases) (db : ℕ) (key : Bytes) (entry : Entry) :
    ∃ image, image.bare = entry.bare ∧
      Traced store (store.putObject db (store.dbIndex db) key entry).2 [.put db key image] := by
  obtain ⟨clock, versions, watched⟩ := touchWatch_eq db key store
  have inside := dbIndex_lt present db
  unfold putObject
  rw [watched]
  dsimp only
  split
  · rename_i old _
    refine ⟨entry.setFreq old.freq, rfl, traced_observePut ?_ rfl ?_ ?_⟩
    · exact ⟨rfl, rfl, rfl, rfl, List.length_set⟩
    · exact (find_setEntry inside key _ _ _).trans (if_pos ⟨rfl, rfl⟩)
    · exact contents_setEntry inside key (entry.setFreq old.freq)
  · refine ⟨entry, rfl, traced_observePut ?_ rfl ?_ ?_⟩
    · exact ⟨rfl, rfl, rfl, rfl, List.length_set⟩
    · exact (find_setEntry inside key _ _ _).trans (if_pos ⟨rfl, rfl⟩)
    · exact contents_setEntry inside key entry

theorem Entry.Formed.of_bare {image : Entry} (same : image.bare = entry.bare)
    (formed : entry.Formed key) : image.Formed key := by
  have bare : entry.bare.Formed key := formed
  rw [← same] at bare
  exact bare

structure Elsewhere (store middle : ShardStore E) (place : ℕ × Bytes) : Prop where
  hooks : SameHooks store middle
  contents : ∀ other, other ≠ place → middle.contents other = store.contents other

omit [EvictionHook E] in
/-- A step that tells of the place accounts for what happened there in silence before. -/
theorem Traced.over (elsewhere : Elsewhere store middle place) (traced : Traced middle next events)
    (touched : ∃ event ∈ events, (event.change store.databases).key = place) : Traced store next events where
  contents := by
    rw [traced.contents]
    funext other
    unfold replayEvents
    rw [elsewhere.hooks.databases]
    apply Change.replay_congr
    intro untouched
    apply elsewhere.contents
    rintro rfl
    obtain ⟨event, member, here⟩ := touched
    exact untouched _ (List.mem_map_of_mem member) here
  observed := by rw [traced.observed, elsewhere.hooks.observed]
  dirtyKeys := by rw [traced.dirtyKeys, elsewhere.hooks.dirtyKeys]
  passive := traced.passive.trans elsewhere.hooks.passive
  thresholds := traced.thresholds.trans elsewhere.hooks.thresholds
  databases := traced.databases.trans elsewhere.hooks.databases

omit [EvictionHook E] in
theorem elsewhere_setEntry (inside : idx < store.databases) (key : Bytes) (entry : Entry) :
    Elsewhere store (store.setEntry idx key entry) (idx, key) where
  hooks := sameHooks_setTable _ _ store
  contents := fun other away => by
    rw [contents_setEntry inside, update_of_ne away]

end ShardStore

end IronCache.Store
