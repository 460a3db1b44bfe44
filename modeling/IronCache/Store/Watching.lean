import IronCache.Store.Altered

/-!
# Connections that watch

A watch is dirty exactly when its key was changed since its snapshot.
-/

namespace IronCache.Store

open Option

namespace ShardStore

variable {E : Type}

/-- The slots account for the watches: their watchers are counted, and no version is ahead of the
clock. -/
structure Tends (entries : List WatchEntry) (store : ShardStore E) : Prop where
  watchers : ∀ place, ((store.slot place).map WatchSlot.watchers).getD 0 = entries.countP (·.place = place)
  filled : ∀ place slot, store.slot place = some slot → 0 < slot.watchers
  bounded : ∀ place slot, store.slot place = some slot → slot.version ≤ store.versionClock
  count : store.watchedCount = entries.length

/-- Nothing happened to the key since the snapshot. -/
structure Clean (store : ShardStore E) (entry : WatchEntry) : Prop where
  version : (store.slot entry.place).map WatchSlot.version = some entry.version
  present : (store.contents entry.place).isSome = entry.presentAtWatch

/-- The slot has a version later than the snapshot's. -/
def Dirty (store : ShardStore E) (entry : WatchEntry) : Prop :=
  ∃ slot, store.slot entry.place = some slot ∧ entry.version < slot.version

/-- The entry of the place is past its deadline. -/
def DueBy (store : ShardStore E) (place : ℕ × Bytes) (now : ℕ) : Prop :=
  ∃ entry, store.contents place = some entry ∧ entry.isExpired now = true

variable {store next : ShardStore E} {entry : WatchEntry} {entries : List WatchEntry}

variable {place : ℕ × Bytes} {slot : WatchSlot} {rewritten : ℕ × Bytes → Prop}

theorem DueBy.later {now later : ℕ} (due : store.DueBy place now) (passed : now ≤ later) :
    store.DueBy place later := by
  obtain ⟨entry, held, expired⟩ := due
  refine ⟨entry, held, ?_⟩
  unfold Entry.isExpired at expired ⊢
  cases deadline : entry.expireAt with
  | none =>
    rw [deadline] at expired
    cases expired
  | some instant =>
    rw [deadline] at expired
    simp only [any_some, decide_eq_true_eq] at expired ⊢
    exact expired.trans_le passed

namespace Tends

variable {entries : List WatchEntry} {store next : ShardStore E}

theorem active (tends : store.Tends entries) : store.Active := by
  intro place there
  obtain ⟨slot, held⟩ := isSome_iff_exists.mp there
  have counted := tends.watchers place
  rw [held] at counted
  have some : 0 < entries.countP (·.place = place) := counted ▸ tends.filled place slot held
  rw [tends.count]
  exact (some.trans_le List.countP_le_length).ne'

theorem alters {rewritten : ℕ × Bytes → Prop} (tends : store.Tends entries)
    (alters : Alters rewritten store next) : next.Tends entries where
  watchers place := by
    rw [alters.watchers tends.active]
    exact tends.watchers place
  filled := by
    intro place slot held
    have same := alters.watchers tends.active place
    rw [held] at same
    obtain ⟨old, before, counted⟩ := map_eq_some_iff.mp same.symm
    exact counted ▸ tends.filled place old before
  bounded := by
    intro place slot held
    rcases alters.still_or_struck tends.active place with still | struck
    · rw [still.1] at held
      exact (tends.bounded place slot held).trans alters.clock
    unfold Struck at struck
    cases before : store.slot place with
    | none =>
      rw [before] at struck
      rw [struck] at held
      cases held
    | some old =>
      rw [before] at struck
      obtain ⟨version, -, below, given⟩ := struck
      rw [given] at held
      cases held
      exact below
  count := alters.count.trans tends.count

theorem perm (tends : store.Tends entries) (same : entries.Perm others) : store.Tends others where
  watchers place := (tends.watchers place).trans (same.countP_eq _)
  filled := tends.filled
  bounded := tends.bounded
  count := tends.count.trans same.length_eq

end Tends

theorem Clean.still (clean : store.Clean entry) (still : Still store next entry.place) :
    next.Clean entry where
  version := still.1.symm ▸ clean.version
  present := still.2.symm ▸ clean.present

theorem Dirty.of_struck (tends : store.Tends entries) (held : store.slot entry.place = some slot)
    (notNewer : entry.version ≤ slot.version) (struck : Struck store next entry.place) :
    next.Dirty entry := by
  unfold Struck at struck
  rw [held] at struck
  obtain ⟨version, above, -, given⟩ := struck
  have bound := tends.bounded _ slot held
  exact ⟨_, given, by dsimp only; omega⟩

theorem Clean.struck (tends : store.Tends entries) (clean : store.Clean entry)
    (struck : Struck store next entry.place) : next.Dirty entry := by
  obtain ⟨slot, held, same⟩ := map_eq_some_iff.mp clean.version
  exact .of_struck tends held same.ge struck

theorem Dirty.alters (tends : store.Tends entries) (dirty : store.Dirty entry)
    (alters : Alters rewritten store next) : next.Dirty entry := by
  obtain ⟨slot, held, later⟩ := dirty
  rcases alters.still_or_struck tends.active entry.place with still | struck
  · exact ⟨slot, still.1.trans held, later⟩
  · exact .of_struck tends held later.le struck

/-- A clean watch stays clean exactly if its place is neither rewritten nor changed. -/
theorem Clean.alters (tends : store.Tends entries) (clean : store.Clean entry)
    (alters : Alters rewritten store next) :
    (rewritten entry.place ∨ next.contents entry.place ≠ store.contents entry.place →
        next.Dirty entry) ∧
      (¬(rewritten entry.place ∨ next.contents entry.place ≠ store.contents entry.place) →
        next.Clean entry) := by
  constructor
  · rintro (chosen | changed)
    · exact clean.struck tends (alters.struck tends.active _ chosen)
    rcases alters.still_or_struck tends.active entry.place with still | struck
    · exact absurd still.2 changed
    · exact clean.struck tends struck
  · intro quiet
    obtain ⟨spared, same⟩ := not_or.mp quiet
    rcases alters.other tends.active entry.place spared with still | ⟨-, resident, emptied⟩
    · exact clean.still still
    -- an emptied place has changed
    refine absurd (fun equal => ?_) same
    rw [← equal, emptied] at resident
    cases resident

theorem slot_setSlot (slot : WatchSlot) :
    (store.setSlot place slot).slot other = if other = place then some slot else store.slot other := by
  unfold setSlot ShardStore.slot
  rw [OrdMap.get?_insert]
  by_cases same : other = place
  · rw [if_pos same, if_pos (congrArg toLex same)]
  · rw [if_neg same, if_neg fun equal => same (toLex.injective equal)]

/-- What registering does to the slots: a version that is there stays. -/
structure Registers (entry : WatchEntry) (store next : ShardStore E) : Prop where
  slot : ∃ slot, next.slot entry.place = some slot ∧ slot.version = entry.version ∧
    slot.watchers = ((store.slot entry.place).map WatchSlot.watchers).getD 0 + 1
  version : entry.version = ((store.slot entry.place).map WatchSlot.version).getD store.versionClock
  other : ∀ place, place ≠ entry.place → next.slot place = store.slot place
  clock : next.versionClock = store.versionClock
  count : next.watchedCount = store.watchedCount + 1
  contents : next.contents = store.contents
  kept : Kept store next

theorem registers_register (db : ℕ) (key : Bytes) (present : Bool) (store : ShardStore E) :
    Registers (store.register db key present).1 store (store.register db key present).2 where
  slot := by
    refine ⟨_, (slot_setSlot _).trans (if_pos rfl), rfl, ?_⟩
    change _ = ((store.slot (db, key)).map WatchSlot.watchers).getD 0 + 1
    cases store.slot (db, key) <;> rfl
  version := by
    change WatchSlot.version _ = ((store.slot (db, key)).map WatchSlot.version).getD store.versionClock
    cases store.slot (db, key) <;> rfl
  other place away := (slot_setSlot _).trans (if_neg away)
  clock := rfl
  count := rfl
  contents := rfl
  kept := ⟨rfl, rfl, rfl⟩

theorem Registers.version_le (tends : store.Tends entries) (registers : Registers entry store next) :
    entry.version ≤ store.versionClock := by
  rw [registers.version]
  cases held : store.slot entry.place with
  | none => exact le_refl _
  | some slot => exact tends.bounded _ slot held

theorem Registers.tends (registers : Registers entry store next) (tends : store.Tends entries) :
    next.Tends (entry :: entries) := by
  obtain ⟨given, held, dated, counted⟩ := registers.slot
  refine ⟨fun place => ?_, fun place slot found => ?_, fun place slot found => ?_, ?_⟩
  · rw [List.countP_cons, ← tends.watchers place]
    by_cases here : entry.place = place
    · subst here
      rw [held]
      simpa using counted
    · rw [registers.other place (Ne.symm here)]
      simp [here]
  · by_cases here : place = entry.place
    · rw [here, held] at found
      cases found
      omega
    · rw [registers.other place here] at found
      exact tends.filled place slot found
  · rw [registers.clock]
    by_cases here : place = entry.place
    · rw [here, held] at found
      cases found
      exact dated.trans_le (registers.version_le tends)
    · rw [registers.other place here] at found
      exact tends.bounded place slot found
  · rw [registers.count, tends.count]
    rfl

/-- The versions that other watches compare with stay. -/
theorem Registers.slot_version (registers : Registers entry store next)
    (held : store.slot place = some slot) :
    ∃ later, next.slot place = some later ∧ later.version = slot.version := by
  by_cases here : place = entry.place
  · subst here
    obtain ⟨given, found, dated, -⟩ := registers.slot
    refine ⟨given, found, ?_⟩
    rw [dated, registers.version, held]
    rfl
  · exact ⟨slot, (registers.other place here).trans held, rfl⟩

/-- The place of a watch that stays keeps its slot's version when others leave. -/
structure Leaves (entry : WatchEntry) (store next : ShardStore E) : Prop where
  slot : ∀ slot, store.slot entry.place = some slot → next.slot entry.place =
    if slot.watchers ≤ 1 then none else some { slot with watchers := slot.watchers - 1 }
  other : ∀ place, place ≠ entry.place → next.slot place = store.slot place
  clock : next.versionClock = store.versionClock
  count : (store.slot entry.place).isSome → next.watchedCount = store.watchedCount - 1
  contents : next.contents = store.contents
  kept : Kept store next

private theorem leaves_unwatchOne (entry : WatchEntry) (store : ShardStore E) :
    Leaves entry store (store.unwatchOne entry) := by
  unfold unwatchOne
  cases held : store.slot entry.place with
  | none =>
    refine ⟨fun slot found => ?_, fun _ _ => rfl, rfl, fun there => ?_, rfl, .refl store⟩
    · rw [held] at found
      cases found
    · rw [held] at there
      cases there
  | some slot =>
    dsimp only
    by_cases last : slot.watchers - 1 = 0
    · rw [if_pos last]
      refine ⟨fun other found => ?_, fun place away => ?_, rfl, fun _ => rfl, rfl, ⟨rfl, rfl, rfl⟩⟩
      · rw [held] at found
        cases found
        rw [if_pos (by omega)]
        exact (OrdMap.get?_erase _ _).trans (if_pos rfl)
      · exact (OrdMap.get?_erase _ _).trans (if_neg fun same => away (toLex.injective same))
    rw [if_neg last]
    refine ⟨fun other found => ?_, fun place away => ?_, rfl, fun _ => rfl, rfl, ⟨rfl, rfl, rfl⟩⟩
    · rw [held] at found
      cases found
      rw [if_neg (by omega)]
      exact (slot_setSlot _).trans (if_pos rfl)
    · exact (slot_setSlot _).trans (if_neg away)

theorem Leaves.tends (leaves : Leaves entry store next) (tends : store.Tends (entry :: entries)) :
    next.Tends entries := by
  have counted := tends.watchers entry.place
  rw [List.countP_cons, if_pos (by simp)] at counted
  obtain ⟨slot, held⟩ : ∃ slot, store.slot entry.place = some slot := by
    cases held : store.slot entry.place with
    | none =>
      rw [held] at counted
      cases counted
    | some slot => exact ⟨slot, rfl⟩
  rw [held] at counted
  change slot.watchers = _ at counted
  have left := leaves.slot slot held
  refine ⟨fun place => ?_, fun place other found => ?_, fun place other found => ?_, ?_⟩
  · by_cases here : place = entry.place
    · subst here
      rw [left]
      split <;> simp <;> omega
    · rw [leaves.other place here, tends.watchers, List.countP_cons, if_neg (by simpa using Ne.symm here)]
      rfl
  · by_cases here : place = entry.place
    · rw [here, left] at found
      split at found
      · cases found
      cases found
      dsimp only
      omega
    · rw [leaves.other place here] at found
      exact tends.filled place other found
  · rw [leaves.clock]
    by_cases here : place = entry.place
    · rw [here, left] at found
      split at found
      · cases found
      · cases found
        exact tends.bounded _ slot held
    · rw [leaves.other place here] at found
      exact tends.bounded place other found
  · rw [leaves.count (held ▸ rfl), tends.count]
    rfl

/-- Others leave; a watch that stays has a watcher left in its slot. -/
theorem Leaves.slot_version (leaves : Leaves gone store next)
    (tends : store.Tends (gone :: entries)) (member : entry ∈ entries)
    (held : store.slot entry.place = some slot) :
    ∃ later, next.slot entry.place = some later ∧ later.version = slot.version := by
  by_cases here : entry.place = gone.place
  · have counted := tends.watchers entry.place
    rw [List.countP_cons, if_pos (by simp [here]), held] at counted
    change slot.watchers = _ at counted
    have others : 0 < entries.countP (·.place = entry.place) :=
      List.countP_pos_iff.mpr ⟨entry, member, by simp⟩
    rw [here] at held ⊢
    exact ⟨_, (leaves.slot slot held).trans (if_neg (by omega)), rfl⟩
  · exact ⟨slot, (leaves.other _ here).trans held, rfl⟩

/-- A step that keeps the contents and the version of a watch's slot keeps what the watch says. -/
structure Steady (entry : WatchEntry) (store next : ShardStore E) : Prop where
  version : ∀ slot, store.slot entry.place = some slot →
    ∃ later, next.slot entry.place = some later ∧ later.version = slot.version
  contents : next.contents = store.contents

theorem Steady.clean (steady : Steady entry store next) (clean : store.Clean entry) : next.Clean entry where
  version := by
    obtain ⟨slot, held, same⟩ := map_eq_some_iff.mp clean.version
    obtain ⟨later, found, kept⟩ := steady.version slot held
    rw [found, map_some, kept, same]
  present := by
    rw [steady.contents]
    exact clean.present

theorem Steady.dirty (steady : Steady entry store next) (dirty : store.Dirty entry) :
    next.Dirty entry := by
  obtain ⟨slot, held, newer⟩ := dirty
  obtain ⟨later, found, kept⟩ := steady.version slot held
  exact ⟨later, found, kept.symm ▸ newer⟩

theorem Steady.refl (entry : WatchEntry) (store : ShardStore E) : Steady entry store store :=
  ⟨fun slot held => ⟨slot, held, rfl⟩, rfl⟩

theorem Steady.trans (first : Steady entry store middle) (second : Steady entry middle next) :
    Steady entry store next where
  version slot held := by
    obtain ⟨later, found, kept⟩ := first.version slot held
    obtain ⟨last, given, same⟩ := second.version later found
    exact ⟨last, given, same.trans kept⟩
  contents := second.contents.trans first.contents

theorem tends_unwatch (tends : store.Tends (leaving ++ staying)) : (store.unwatch leaving).Tends staying ∧
      ∀ entry ∈ staying, Steady entry store (store.unwatch leaving) := by
  induction leaving generalizing store with
  | nil => exact ⟨tends, fun entry _ => .refl entry store⟩
  | cons gone leaving ih =>
    have leaves := leaves_unwatchOne gone store
    obtain ⟨after, steady⟩ := ih (leaves.tends tends)
    refine ⟨after, fun entry member => .trans ⟨fun slot held => ?_, leaves.contents⟩ (steady entry member)⟩
    exact leaves.slot_version tends (List.mem_append_right leaving member) held

/-- Watches are all that departures change. -/
theorem frame_unwatch (entries : List WatchEntry) (store : ShardStore E) :
    Kept store (store.unwatch entries) ∧ SameRoster store (store.unwatch entries) := by
  induction entries generalizing store with
  | nil => exact ⟨.refl store, rfl, rfl⟩
  | cons entry entries ih =>
    have one : Kept store (store.unwatchOne entry) ∧ SameRoster store (store.unwatchOne entry) := by
      unfold unwatchOne
      split
      · dsimp only
        split <;> exact ⟨⟨rfl, rfl, rfl⟩, rfl, rfl⟩
      · exact ⟨.refl store, rfl, rfl⟩
    obtain ⟨kept, roster⟩ := ih (store.unwatchOne entry)
    exact ⟨one.1.trans kept, one.2.trans roster⟩

theorem Registers.steady (registers : Registers entry store next) (other : WatchEntry) :
    Steady other store next :=
  ⟨fun _ held => registers.slot_version held, registers.contents⟩

variable [EvictionHook E]

/-- After the expiry check of an active store a key is resident exactly if it is live. -/
theorem isSome_expireIfDue (inside : db < store.databases) (active : store.passive = false)
    (key : Bytes) (now : ℕ) :
    ((store.expireIfDue db (store.dbIndex db) key now).2.contents (db, key)).isSome =
      (store.expireIfDue db (store.dbIndex db) key now).1 := by
  unfold expireIfDue
  cases found : store.find (store.dbIndex db) key with
  | none =>
    rw [dbIndex_of_lt inside] at found
    unfold contents
    rw [found]
    rfl
  | some entry =>
    dsimp only
    split
    · rw [if_neg (by simp [active])]
      have emptied := (alters_removeObjectCrediting inside found
        ((store.find (store.dbIndex db) key).elim 0 Entry.accountedBytes)).2
      rw [← removeObject_eq] at emptied
      split
      · exact congrArg isSome emptied
      · exact congrArg isSome emptied
    · exact resident_of_find inside found

omit [EvictionHook E] in
theorem dueBy_iff (inside : db < store.databases) : store.DueBy (db, key) now ↔
      (store.contents (db, key)).isSome ∧ store.liveEntry db key now = none := by
  unfold DueBy liveEntry contents
  rw [dbIndex_of_lt inside]
  cases store.find db key with
  | none => simp
  | some entry =>
    have same : entry.bare.isExpired now = entry.isExpired now := rfl
    simp [filter_some, same]

end ShardStore

end IronCache.Store
