import IronCache.Store.Machine

/-!
# Watched keys

`watch_snapshot`, `watch_is_dirty` and `unwatch` of `ironcache-store/src/lib.rs`. A slot is struck
when it is given a version of its own.
-/

namespace IronCache.Store

open List

structure WatchEntry where
  db : ℕ
  key : Bytes
  version : ℕ
  presentAtWatch : Bool
deriving DecidableEq

def WatchEntry.place (entry : WatchEntry) : ℕ × Bytes := (entry.db, entry.key)

namespace ShardStore

variable {E : Type}

def slot (store : ShardStore E) (place : ℕ × Bytes) : Option WatchSlot :=
  store.watchVersions.get? (toLex place)

def setSlot (place : ℕ × Bytes) (slot : WatchSlot) (store : ShardStore E) : ShardStore E :=
  { store with watchVersions := store.watchVersions.insert (toLex place) slot }

/-- Registers a watcher; a new slot starts at the current clock. -/
def register (db : ℕ) (key : Bytes) (present : Bool) (store : ShardStore E) : WatchEntry × ShardStore E :=
  let slot := match store.slot (db, key) with
    | some slot => { slot with watchers := slot.watchers + 1 }
    | none => ⟨store.versionClock, 1⟩
  (⟨db, key, slot.version, present⟩,
    { store.setSlot (db, key) slot with watchedCount := store.watchedCount + 1 })

/-- The expiry check comes first, so that a key it reaps is watched as absent. -/
def watchSnapshot [EvictionHook E] (db : ℕ) (key : Bytes) (now : ℕ) (store : ShardStore E) :
    WatchEntry × ShardStore E :=
  let (present, store) := store.expireIfDue db (store.dbIndex db) key now
  store.register db key present

def watchIsDirty [EvictionHook E] (entry : WatchEntry) (now : ℕ) (store : ShardStore E) :
    Bool × ShardStore E :=
  let (presentNow, store) := store.expireIfDue entry.db (store.dbIndex entry.db) entry.key now
  if presentNow ≠ entry.presentAtWatch then (true, store)
  else
    match store.slot entry.place with
    | some slot => (slot.version != entry.version, store)
    | none => (false, store)

/-- One watcher leaves; a slot goes with its last watcher. -/
def unwatchOne (store : ShardStore E) (entry : WatchEntry) : ShardStore E :=
  match store.slot entry.place with
  | some slot =>
    let watchers := slot.watchers - 1
    let store := { store with watchedCount := store.watchedCount - 1 }
    if watchers = 0 then
      { store with watchVersions := store.watchVersions.erase (toLex entry.place) }
    else store.setSlot entry.place { slot with watchers }
  | none => store

def unwatch (entries : List WatchEntry) (store : ShardStore E) : ShardStore E :=
  entries.foldl unwatchOne store

/-- A slot exists only while watchers are counted. -/
def Active (store : ShardStore E) : Prop :=
  ∀ place, (store.slot place).isSome → store.watchedCount ≠ 0

/-- Neither the slot nor the contents of the place changed. -/
def Still (store next : ShardStore E) (place : ℕ × Bytes) : Prop :=
  next.slot place = store.slot place ∧ next.contents place = store.contents place

/-- The slot of the place, if there is one, has a version that was given out since. -/
def Struck (store next : ShardStore E) (place : ℕ × Bytes) : Prop :=
  match store.slot place with
  | none => next.slot place = none
  | some slot => ∃ version, store.versionClock < version ∧ version ≤ next.versionClock ∧
      next.slot place = some { slot with version }

/-- A step that strikes the slots of the rewritten places and of those it empties, and leaves
every other place alone. -/
structure Alters (rewritten : ℕ × Bytes → Prop) (store next : ShardStore E) : Prop where
  kept : Kept store next
  count : next.watchedCount = store.watchedCount
  clock : store.versionClock ≤ next.versionClock
  struck : store.Active → ∀ place, rewritten place → Struck store next place
  other : store.Active → ∀ place, ¬rewritten place → Still store next place ∨
    Struck store next place ∧ (store.contents place).isSome ∧ next.contents place = none

variable {store middle next : ShardStore E} {place : ℕ × Bytes} {db : ℕ}

theorem Struck.trans_still (first : Struck store middle place)
    (clock : middle.versionClock ≤ next.versionClock) (second : next.slot place = middle.slot place) :
    Struck store next place := by
  unfold Struck at first ⊢
  rw [second]
  cases held : store.slot place with
  | none =>
    rw [held] at first
    exact first
  | some slot =>
    rw [held] at first
    obtain ⟨version, above, below, given⟩ := first
    exact ⟨version, above, below.trans clock, given⟩

theorem Struck.after_still (first : middle.slot place = store.slot place)
    (clock : store.versionClock ≤ middle.versionClock) (second : Struck middle next place) :
    Struck store next place := by
  unfold Struck at second ⊢
  rw [first] at second
  cases held : store.slot place with
  | none =>
    rw [held] at second
    exact second
  | some slot =>
    rw [held] at second
    obtain ⟨version, above, below, given⟩ := second
    exact ⟨version, clock.trans_lt above, below, given⟩

theorem Struck.trans (first : Struck store middle place)
    (clock : store.versionClock ≤ middle.versionClock) (second : Struck middle next place) :
    Struck store next place := by
  unfold Struck at first second ⊢
  cases held : store.slot place with
  | none =>
    rw [held] at first
    rw [first] at second
    exact second
  | some slot =>
    rw [held] at first
    obtain ⟨version, above, below, given⟩ := first
    rw [given] at second
    obtain ⟨later, newer, bounded, regiven⟩ := second
    exact ⟨later, clock.trans_lt newer, bounded, regiven⟩

namespace Alters

variable {rewritten early late : ℕ × Bytes → Prop} {store middle next : ShardStore E}

theorem still_or_struck (alters : Alters rewritten store next) (active : store.Active)
    (place : ℕ × Bytes) : Still store next place ∨ Struck store next place := by
  by_cases chosen : rewritten place
  · exact .inr (alters.struck active place chosen)
  · exact (alters.other active place chosen).imp_right And.left

theorem watchers (alters : Alters rewritten store next) (active : store.Active) (place : ℕ × Bytes) :
    (next.slot place).map WatchSlot.watchers = (store.slot place).map WatchSlot.watchers := by
  rcases alters.still_or_struck active place with still | struck
  · rw [still.1]
  unfold Struck at struck
  cases held : store.slot place with
  | none =>
    rw [held] at struck
    rw [struck]
  | some slot =>
    rw [held] at struck
    obtain ⟨version, -, -, given⟩ := struck
    rw [given]
    rfl

theorem active (alters : Alters rewritten store next) (active : store.Active) : next.Active := by
  intro place there
  rw [alters.count]
  refine active place ?_
  have same := alters.watchers active place
  rw [← Option.isSome_map, ← same, Option.isSome_map]
  exact there

theorem refl (store : ShardStore E) : Alters (fun _ => False) store store where
  kept := .refl store
  count := rfl
  clock := le_refl _
  struck _ _ chosen := chosen.elim
  other _ _ _ := .inl ⟨rfl, rfl⟩

theorem trans (first : Alters early store middle) (second : Alters late middle next) :
    Alters (fun place => early place ∨ late place) store next where
  kept := first.kept.trans second.kept
  count := second.count.trans first.count
  clock := first.clock.trans second.clock
  struck := by
    intro active place chosen
    have onward := second.still_or_struck (first.active active) place
    by_cases before : early place
    · have struck := first.struck active place before
      rcases onward with still | again
      · exact struck.trans_still second.clock still.1
      · exact struck.trans first.clock again
    have again := second.struck (first.active active) place (chosen.resolve_left before)
    rcases first.still_or_struck active place with still | struck
    · exact Struck.after_still still.1 first.clock again
    · exact struck.trans first.clock again
  other := by
    intro active place spared
    obtain ⟨notEarly, notLate⟩ := not_or.mp spared
    rcases first.other active place notEarly with still | ⟨struck, resident, emptied⟩
    · rcases second.other (first.active active) place notLate with again | ⟨hit, held, erased⟩
      · exact .inl ⟨again.1.trans still.1, again.2.trans still.2⟩
      · rw [still.2] at held
        exact .inr ⟨Struck.after_still still.1 first.clock hit, held, erased⟩
    rcases second.other (first.active active) place notLate with again | ⟨hit, held, erased⟩
    · exact .inr ⟨struck.trans_still second.clock again.1, resident, again.2.trans emptied⟩
    -- what is empty is not emptied again
    rw [emptied] at held
    cases held

theorem of_iff (alters : Alters early store next) (same : ∀ place, late place ↔ early place) :
    Alters late store next := by
  have equal : late = early := funext fun place => propext (same place)
  exact equal ▸ alters

/-- A step after one that empties at most. -/
theorem after (first : Alters (fun _ => False) store middle) (second : Alters late middle next) :
    Alters late store next :=
  (first.trans second).of_iff fun place => by rw [false_or]

theorem onward (first : Alters early store middle) (second : Alters (fun _ => False) middle next) :
    Alters early store next :=
  (first.trans second).of_iff fun place => by rw [or_false]

variable {condition : Prop}

theorem given (alters : Alters early store next) (holds : condition) :
    Alters (fun place => early place ∧ condition) store next :=
  alters.of_iff fun _ => and_iff_left holds

theorem failing (alters : Alters (fun _ => False) store next) (fails : ¬condition) :
    Alters (fun place => early place ∧ condition) store next :=
  alters.of_iff fun _ => ⟨fun both => fails both.2, False.elim⟩

/-- A rewritten place that was emptied need not be called rewritten. -/
theorem emptying (alters : Alters rewritten store next) (emptied : ∀ place, rewritten place →
      (store.contents place).isSome ∧ next.contents place = none) :
    Alters (fun _ => False) store next where
  kept := alters.kept
  count := alters.count
  clock := alters.clock
  struck _ _ chosen := chosen.elim
  other := by
    intro active place _
    by_cases chosen : rewritten place
    · exact .inr ⟨alters.struck active place chosen, emptied place chosen⟩
    · exact alters.other active place chosen

end Alters

structure SameWatches (store next : ShardStore E) : Prop where
  versionClock : next.versionClock = store.versionClock
  watchVersions : next.watchVersions = store.watchVersions
  watchedCount : next.watchedCount = store.watchedCount

theorem SameWatches.slot (same : SameWatches store next) (place : ℕ × Bytes) :
    next.slot place = store.slot place := by
  unfold ShardStore.slot
  rw [same.watchVersions]

theorem SameWatches.trans (first : SameWatches store middle) (second : SameWatches middle next) :
    SameWatches store next where
  versionClock := second.versionClock.trans first.versionClock
  watchVersions := second.watchVersions.trans first.watchVersions
  watchedCount := second.watchedCount.trans first.watchedCount

theorem sameWatches_observePut : SameWatches store (store.observePut db idx key) := by
  unfold observePut
  dsimp only
  split <;> exact ⟨rfl, rfl, rfl⟩

theorem sameWatches_setEntryExpire : SameWatches store (store.setEntryExpire idx key deadline) := by
  unfold setEntryExpire
  split <;> exact ⟨rfl, rfl, rfl⟩

theorem alters_quiet (kept : Kept store next) (watches : SameWatches store next)
    (same : next.contents = store.contents) : Alters (fun _ => False) store next where
  kept := kept
  count := watches.watchedCount
  clock := watches.versionClock.ge
  struck _ _ chosen := chosen.elim
  other _ place _ := .inl ⟨watches.slot place, congrFun same place⟩

variable {rewritten : ℕ × Bytes → Prop} {key : Bytes} {entry : Entry}

/-- A step that goes on from struck slots and changes contents only where they were struck. -/
theorem Alters.over (first : Alters rewritten store middle) (kept : Kept store next)
    (watches : SameWatches middle next)
    (elsewhere : ∀ place, ¬rewritten place → next.contents place = middle.contents place) :
    Alters rewritten store next where
  kept := kept
  count := watches.watchedCount.trans first.count
  clock := first.clock.trans watches.versionClock.ge
  struck active place chosen :=
    (first.struck active place chosen).trans_still watches.versionClock.ge (watches.slot place)
  other := by
    intro active place spared
    have same := elsewhere place spared
    rcases first.other active place spared with still | ⟨struck, resident, emptied⟩
    · exact .inl ⟨(watches.slot place).trans still.1, same.trans still.2⟩
    · exact .inr ⟨struck.trans_still watches.versionClock.ge (watches.slot place), resident,
        same.trans emptied⟩

/-- A step before, in silence, that changes contents only where slots are struck later. -/
theorem Alters.behind (second : Alters rewritten middle next) (kept : Kept store middle)
    (watches : SameWatches store middle)
    (elsewhere : ∀ place, ¬rewritten place → middle.contents place = store.contents place) :
    Alters rewritten store next := by
  have active : store.Active → middle.Active := fun active place there => by
    rw [watches.slot] at there
    rw [watches.watchedCount]
    exact active place there
  refine ⟨kept.trans second.kept, second.count.trans watches.watchedCount,
    watches.versionClock.ge.trans second.clock, fun before place chosen => ?_, fun before place spared => ?_⟩
  · exact .after_still (watches.slot place) watches.versionClock.ge
      (second.struck (active before) place chosen)
  · have same := elsewhere place spared
    rcases second.other (active before) place spared with still | ⟨struck, resident, emptied⟩
    · exact .inl ⟨still.1.trans (watches.slot place), still.2.trans same⟩
    · rw [same] at resident
      exact .inr ⟨.after_still (watches.slot place) watches.versionClock.ge struck, resident, emptied⟩

/-- More places are called rewritten, where no slot is to be struck. -/
theorem Alters.widen {early late : ℕ × Bytes → Prop} (alters : Alters early store next)
    (wider : ∀ place, early place → late place)
    (idle : ∀ place, late place → ¬early place → store.slot place = none) : Alters late store next where
  kept := alters.kept
  count := alters.count
  clock := alters.clock
  struck := by
    intro active place chosen
    by_cases before : early place
    · exact alters.struck active place before
    rcases alters.still_or_struck active place with still | struck
    · have absent := idle place chosen before
      unfold Struck
      rw [absent]
      exact still.1.trans absent
    · exact struck
  other active place spared := alters.other active place fun before => spared (wider place before)

theorem alters_bump {slot : WatchSlot} (held : store.slot place = some slot) :
    Alters (· = place) store { store with
      versionClock := store.versionClock + 1
      watchVersions := store.watchVersions.insert (toLex place)
        { slot with version := store.versionClock + 1 } } where
  kept := ⟨rfl, rfl, rfl⟩
  count := rfl
  clock := Nat.le_succ _
  struck := by
    rintro - other rfl
    unfold Struck
    rw [held]
    refine ⟨store.versionClock + 1, Nat.lt_succ_self _, le_refl _, ?_⟩
    exact (OrdMap.get?_insert _ _ _ _).trans (if_pos rfl)
  other := by
    intro _ other away
    refine .inl ⟨(OrdMap.get?_insert _ _ _ _).trans (if_neg fun same => away ?_), rfl⟩
    exact toLex.injective same

private theorem slot_of_idle (active : store.Active) (idle : store.watchedCount = 0) :
    store.slot place = none := by
  by_contra there
  exact active place (Option.isSome_iff_ne_none.mpr there) idle

theorem alters_idle (idle : store.watchedCount = 0) : Alters rewritten store store where
  kept := .refl store
  count := rfl
  clock := le_refl _
  struck := by
    intro active place _
    unfold Struck
    rw [slot_of_idle active idle]
  other _ _ _ := .inl ⟨rfl, rfl⟩

theorem alters_touchWatch : Alters (· = (db, key)) store (store.touchWatch db key) := by
  unfold touchWatch
  split
  · rename_i idle
    exact alters_idle idle
  split
  · rename_i slot held
    exact alters_bump held
  rename_i absent
  refine (Alters.refl store).widen (fun _ never => never.elim) ?_
  rintro place rfl -
  exact absent

theorem alters_touchAllWatchesInDb (db : ℕ) (store : ShardStore E) :
    Alters (·.1 = db) store (store.touchAllWatchesInDb db) := by
  unfold touchAllWatchesInDb
  split
  · rename_i idle
    exact alters_idle idle
  have looped : ∀ (watched : List ((ℕ ×ₗ Bytes) × WatchSlot)) (middle : ShardStore E),
      (watched.map Prod.fst).Nodup → (∀ pair ∈ watched, middle.slot (ofLex pair.1) = some pair.2) →
      Alters (fun place => place.1 = db ∧ toLex place ∈ watched.map Prod.fst) middle
        (watched.foldl (fun store watched =>
          if (ofLex watched.1).1 = db then
            let version := store.versionClock + 1
            { store with
              versionClock := version
              watchVersions := store.watchVersions.insert watched.1 { watched.2 with version } }
          else store) middle) := by
    intro watched
    induction watched with
    | nil => exact fun middle _ _ => (Alters.refl middle).of_iff fun place => by simp
    | cons pair watched ih =>
      intro middle distinct held
      obtain ⟨fresh, distinct⟩ := nodup_cons.mp distinct
      have here := held pair mem_cons_self
      have rest := fun other member => held other (mem_cons_of_mem pair member)
      rw [foldl_cons]
      split
      · rename_i inside
        have bumped := alters_bump here
        refine (bumped.trans (ih _ distinct fun other member => ?_)).of_iff fun place => ?_
        · refine ((OrdMap.get?_insert _ _ _ _).trans (if_neg fun same => fresh ?_)).trans (rest other member)
          have equal : other.1 = pair.1 := toLex.injective same
          exact equal ▸ mem_map_of_mem member
        · rw [map_cons, mem_cons]
          constructor
          · rintro ⟨named, same | later⟩
            · exact .inl (toLex.injective same)
            · exact .inr ⟨named, later⟩
          · rintro (rfl | ⟨named, later⟩)
            · exact ⟨inside, .inl rfl⟩
            · exact ⟨named, .inr later⟩
      · rename_i outside
        refine (ih middle distinct rest).of_iff fun place => ?_
        rw [map_cons, mem_cons]
        refine and_congr_right fun named => or_iff_right fun same => outside ?_
        rw [← same]
        exact named
  refine (looped _ store (OrdMap.keys_nodup _) fun pair member =>
    OrdMap.mem_toList.mp member).widen (fun place chosen => chosen.1) fun place named spared => ?_
  by_contra there
  obtain ⟨slot, held⟩ := Option.ne_none_iff_exists'.mp there
  exact spared ⟨named, mem_map.mpr ⟨_, OrdMap.mem_toList.mpr held, rfl⟩⟩

def OnlyAt (place : ℕ × Bytes) (store next : ShardStore E) : Prop :=
  ∀ other, other ≠ place → next.contents other = store.contents other

theorem OnlyAt.trans (first : OnlyAt place store middle) (second : OnlyAt place middle next) :
    OnlyAt place store next :=
  fun other away => (second other away).trans (first other away)

theorem contents_congr (same : next.dbs = store.dbs) : next.contents = store.contents := by
  unfold contents find table
  rw [same]

theorem OnlyAt.of_dbs (same : next.dbs = store.dbs) (place : ℕ × Bytes) : OnlyAt place store next :=
  fun other _ => congrFun (contents_congr same) other

theorem dbs_touchWatch (db : ℕ) (key : Bytes) (store : ShardStore E) :
    (store.touchWatch db key).dbs = store.dbs := by
  obtain ⟨clock, versions, watched⟩ := touchWatch_eq db key store
  rw [watched]

theorem dbs_observePut : (store.observePut db idx key).dbs = store.dbs := by
  unfold observePut
  dsimp only
  split <;> rfl

theorem onlyAt_setEntry (inside : idx < store.databases) :
    OnlyAt (idx, key) store (store.setEntry idx key entry) :=
  (elsewhere_setEntry inside key entry).contents

theorem onlyAt_setEntryExpire (inside : idx < store.databases) (key : Bytes) (deadline : Option ℕ) :
    OnlyAt (idx, key) store (store.setEntryExpire idx key deadline) := by
  unfold setEntryExpire
  split
  · exact onlyAt_setEntry inside
  · exact fun _ _ => rfl

theorem dbIndex_of_lt (inside : db < store.databases) : store.dbIndex db = db := by
  unfold dbIndex
  unfold databases at inside
  omega

/-- A step that strikes the slot of one place and changes contents there only. -/
theorem alters_at (kept : Kept store next) (watches : SameWatches (store.touchWatch db key) next)
    (only : OnlyAt (db, key) store next) : Alters (· = (db, key)) store next := by
  refine alters_touchWatch.over kept watches fun place away => ?_
  rw [contents_congr (dbs_touchWatch db key store)]
  exact only place away

theorem resident_of_find (inside : db < store.databases)
    (found : store.find (store.dbIndex db) key = some entry) : (store.contents (db, key)).isSome := by
  rw [dbIndex_of_lt inside] at found
  unfold contents
  rw [found]
  rfl

theorem find_of_resident (inside : db < store.databases) (resident : (store.contents (db, key)).isSome) :
    ∃ entry, store.find (store.dbIndex db) key = some entry := by
  rw [dbIndex_of_lt inside]
  unfold contents at resident
  rw [Option.isSome_map] at resident
  exact Option.isSome_iff_exists.mp resident

theorem Traced.onlyAt (traced : Traced store next [event])
    (inside : event.place.1 < store.databases) : OnlyAt event.place store next := by
  intro other away
  rw [traced.contents]
  refine Change.replay_of_untouched _ fun change member same => away ?_
  cases mem_singleton.mp member
  rw [← same]
  have index : ∀ db, db < store.databases → min db (store.databases - 1) = db := fun db _ => by omega
  cases event with
  | put db key entry => exact Prod.ext (index db inside) rfl
  | remove db key => exact Prod.ext (index db inside) rfl

variable [EvictionHook E]

theorem alters_putObject (inside : db < store.databases) (key : Bytes) (entry : Entry) :
    Alters (· = (db, key)) store (store.putObject db (store.dbIndex db) key entry).2 := by
  obtain ⟨image, -, traced⟩ := traced_putObject (Nat.zero_lt_of_lt inside) db key entry
  refine alters_at (kept_putObject db _ key entry store) ?_ (traced.onlyAt inside)
  unfold putObject
  dsimp only
  split
  · refine SameWatches.trans ?_ sameWatches_observePut
    exact ⟨rfl, rfl, rfl⟩
  · refine SameWatches.trans ?_ sameWatches_observePut
    exact ⟨rfl, rfl, rfl⟩

theorem sameWatches_removeObjectCrediting : SameWatches (store.touchWatch db key)
      (store.removeObjectCrediting db idx key bytes).2 := by
  unfold removeObjectCrediting
  dsimp only
  split <;> exact ⟨rfl, rfl, rfl⟩

/-- A removal that finds its entry strikes the slot and empties the place. -/
theorem alters_removeObjectCrediting (inside : db < store.databases)
    (found : store.find (store.dbIndex db) key = some entry) (bytes : ℕ) :
    Alters (· = (db, key)) store (store.removeObjectCrediting db (store.dbIndex db) key bytes).2 ∧
      (store.removeObjectCrediting db (store.dbIndex db) key bytes).2.contents (db, key) = none := by
  have traced := traced_removeObjectCrediting (Nat.zero_lt_of_lt inside) db bytes found
  refine ⟨alters_at (kept_removeObjectCrediting db _ key bytes store)
    sameWatches_removeObjectCrediting (traced.onlyAt inside), ?_⟩
  rw [removeObjectCrediting_of_find found]
  change (store.eraseEntry (store.dbIndex db) key).contents (db, key) = none
  rw [dbIndex_of_lt inside, contents_eraseEntry inside, Function.update_self]

theorem alters_removeObject (inside : db < store.databases)
    (found : store.find (store.dbIndex db) key = some entry) :
    Alters (fun _ => False) store (store.removeObject db (store.dbIndex db) key).2 := by
  rw [removeObject_eq]
  obtain ⟨alters, emptied⟩ := alters_removeObjectCrediting inside found _
  refine alters.emptying ?_
  rintro place rfl
  exact ⟨resident_of_find inside found, emptied⟩

end ShardStore

end IronCache.Store
