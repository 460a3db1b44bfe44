import IronCache.Store.Traced

/-!
# Past the funnel

`swap_db` and `remove_keys_where` edit the tables directly: the observer hears of neither, and they
mark the keys they change as dirty themselves.
-/

namespace IronCache.Store.ShardStore

open List

variable {E : Type}

/-- Whether the next delta of a save takes up the place. -/
def IsDirty (store : ShardStore E) (place : ℕ × Bytes) : Prop :=
  ∃ keys ∈ store.dirtyKeys, toLex place ∈ keys

/-- A step that tells the observer nothing. -/
structure Silent (store next : ShardStore E) : Prop where
  observed : next.observed = store.observed
  passive : next.passive = store.passive
  thresholds : next.encodingThresholds = store.encodingThresholds
  databases : next.databases = store.databases

variable {store next middle : ShardStore E} {place : ℕ × Bytes} {a b : ℕ}

theorem SameHooks.silent (hooks : SameHooks store next) : Silent store next :=
  ⟨hooks.observed, hooks.passive, hooks.thresholds, hooks.databases⟩

theorem Silent.trans (first : Silent store middle) (second : Silent middle next) : Silent store next where
  observed := second.observed.trans first.observed
  passive := second.passive.trans first.passive
  thresholds := second.thresholds.trans first.thresholds
  databases := second.databases.trans first.databases

/-- A step under which the dirty keys grow by what it changes, where they are tracked at all. -/
structure Dirtied (store next : ShardStore E) : Prop where
  tracked : next.dirtyKeys.isSome = store.dirtyKeys.isSome
  grows : ∀ place, store.IsDirty place → next.IsDirty place
  marks : store.dirtyKeys.isSome → ∀ place, next.contents place ≠ store.contents place → next.IsDirty place

theorem Dirtied.quiet (same : next.dirtyKeys = store.dirtyKeys)
    (kept : next.contents = store.contents) : Dirtied store next where
  tracked := by rw [same]
  grows := fun place marked => by
    unfold IsDirty
    rwa [same]
  marks := fun _ place changed => absurd (congrFun kept place) changed

theorem Dirtied.trans (first : Dirtied store middle) (second : Dirtied middle next) : Dirtied store next where
  tracked := second.tracked.trans first.tracked
  grows := fun place marked => second.grows place (first.grows place marked)
  marks := fun tracking place changed => by
    by_cases early : middle.contents place = store.contents place
    · exact second.marks (first.tracked ▸ tracking) place fun same => changed (same.trans early)
    · exact second.grows place (first.marks tracking place early)

private theorem isDirty_touchDirty : (store.touchDirty db key).IsDirty place ↔
      store.dirtyKeys.isSome ∧ place = (db, key) ∨ store.IsDirty place := by
  unfold IsDirty touchDirty
  cases store.dirtyKeys with
  | none => simp
  | some keys => simp [OrdSet.mem_insert]

theorem inside_of_contents (present : (store.contents place).isSome) : place.1 < store.databases := by
  by_contra outside
  have absent : store.dbs.length ≤ place.1 := Nat.not_lt.mp outside
  unfold contents find table at present
  rw [getD_eq_getElem?_getD, getElem?_eq_none absent] at present
  cases present

theorem contents_setTable (inside : idx < store.databases) (table : OrdMap Bytes Entry) (place : ℕ × Bytes) :
    (store.setTable idx table).contents place =
      if place.1 = idx then (table.get? place.2).map Entry.bare else store.contents place := by
  unfold contents
  rw [find_setTable _ _ _ _ _ inside]
  split <;> rfl

/-- The marks that `swapDb` leaves: each key under both databases. -/
def touchBoth (a b : ℕ) (keys : List Bytes) (store : ShardStore E) : ShardStore E :=
  keys.foldl (fun store key => (store.touchDirty a key).touchDirty b key) store

theorem touchBoth_eq (a b : ℕ) (keys : List Bytes) (store : ShardStore E) :
    ∃ dirtyKeys, store.touchBoth a b keys = { store with dirtyKeys } := by
  induction keys generalizing store with
  | nil => exact ⟨_, rfl⟩
  | cons key keys ih =>
    obtain ⟨dirty, same⟩ := ih ((store.touchDirty a key).touchDirty b key)
    exact ⟨dirty, same⟩

/-- Databases that trade places hold each other's tables, and every key of either is dirty. -/
private theorem swapDb_eq (different : store.dbIndex a ≠ store.dbIndex b) :
    ∃ versionClock watchVersions, store.swapDb a b =
      touchBoth a b ((store.table (store.dbIndex b)).toList.map Prod.fst ++
          (store.table (store.dbIndex a)).toList.map Prod.fst)
        { (store.setTable (store.dbIndex a) (store.table (store.dbIndex b))).setTable
            (store.dbIndex b) (store.table (store.dbIndex a)) with versionClock, watchVersions } := by
  unfold swapDb
  dsimp only
  rw [if_neg different]
  obtain ⟨clock, versions, first⟩ := touchAllWatchesInDb_eq a
    ((store.setTable (store.dbIndex a) (store.table (store.dbIndex b))).setTable
      (store.dbIndex b) (store.table (store.dbIndex a)))
  rw [first]
  obtain ⟨clock, versions, second⟩ := touchAllWatchesInDb_eq b
    { (store.setTable (store.dbIndex a) (store.table (store.dbIndex b))).setTable
        (store.dbIndex b) (store.table (store.dbIndex a)) with
      versionClock := clock, watchVersions := versions }
  rw [second]
  exact ⟨clock, versions, rfl⟩

/-- The tables trade places; what else changes is what watches and deltas read. -/
theorem swapDb_tables (different : store.dbIndex a ≠ store.dbIndex b) :
    ∃ versionClock watchVersions dirtyKeys, store.swapDb a b =
      { (store.setTable (store.dbIndex a) (store.table (store.dbIndex b))).setTable
          (store.dbIndex b) (store.table (store.dbIndex a)) with
        versionClock, watchVersions, dirtyKeys } := by
  obtain ⟨clock, versions, swapped⟩ := swapDb_eq different
  obtain ⟨dirty, marked⟩ := touchBoth_eq a b ((store.table (store.dbIndex b)).toList.map Prod.fst ++
    (store.table (store.dbIndex a)).toList.map Prod.fst)
    { (store.setTable (store.dbIndex a) (store.table (store.dbIndex b))).setTable
        (store.dbIndex b) (store.table (store.dbIndex a)) with
      versionClock := clock, watchVersions := versions }
  exact ⟨clock, versions, dirty, swapped.trans marked⟩

theorem swapDb_self (same : store.dbIndex a = store.dbIndex b) : store.swapDb a b = store := by
  unfold swapDb
  rw [if_pos same]

theorem contents_swapDb (present : 0 < store.databases) : (store.swapDb a b).contents place =
      store.contents (Equiv.swap (store.dbIndex a) (store.dbIndex b) place.1, place.2) := by
  by_cases same : store.dbIndex a = store.dbIndex b
  · rw [swapDb_self same, same, Equiv.swap_self]
    rfl
  obtain ⟨clock, versions, dirty, swapped⟩ := swapDb_tables same
  rw [swapped]
  change ((store.setTable (store.dbIndex a) (store.table (store.dbIndex b))).setTable
    (store.dbIndex b) (store.table (store.dbIndex a))).contents place = _
  rw [contents_setTable (by rw [databases_setTable]; exact dbIndex_lt present b),
    contents_setTable (dbIndex_lt present a)]
  by_cases second : place.1 = store.dbIndex b
  · rw [if_pos second, second, Equiv.swap_apply_right]
    rfl
  by_cases first : place.1 = store.dbIndex a
  · rw [if_neg second, if_pos first, first, Equiv.swap_apply_left]
    rfl
  · rw [if_neg second, if_neg first, Equiv.swap_apply_of_ne_of_ne first second]

theorem silent_swapDb : Silent store (store.swapDb a b) := by
  by_cases same : store.dbIndex a = store.dbIndex b
  · rw [swapDb_self same]
    exact (SameHooks.refl store).silent
  obtain ⟨clock, versions, dirty, swapped⟩ := swapDb_tables same
  rw [swapped]
  exact ⟨rfl, rfl, rfl, (databases_setTable _ _ _).trans (databases_setTable _ _ _)⟩

section Purge

variable [EvictionHook E]

/-- A purge of some places: they are absent after it, nothing else changes, and what is gone is
dirty. -/
structure Purged (gone : ℕ × Bytes → Prop) (store next : ShardStore E) : Prop where
  silent : Silent store next
  dirtied : Dirtied store next
  removed : ∀ place, gone place → next.contents place = none
  kept : ∀ place, ¬gone place → next.contents place = store.contents place

omit [EvictionHook E] in
theorem Purged.nothing (store : ShardStore E) : Purged (fun _ => False) store store where
  silent := (SameHooks.refl store).silent
  dirtied := .quiet rfl rfl
  removed := fun _ gone => gone.elim
  kept := fun _ _ => rfl

variable {store next : ShardStore E} {gone other : ℕ × Bytes → Prop} {idx : ℕ}

omit [EvictionHook E] in
theorem Purged.trans {early late : ℕ × Bytes → Prop} (first : Purged early store middle)
    (second : Purged late middle next) : Purged (fun place => early place ∨ late place) store next where
  silent := first.silent.trans second.silent
  dirtied := first.dirtied.trans second.dirtied
  removed := fun place gone => by
    by_cases later : late place
    · exact second.removed place later
    · exact (second.kept place later).trans (first.removed place (gone.resolve_right later))
  kept := fun place kept =>
    (second.kept place fun late => kept (.inr late)).trans (first.kept place fun early => kept (.inl early))

omit [EvictionHook E] in
/-- Places that were empty all along may be counted as purged. -/
theorem Purged.widen (purged : Purged gone store next) (wider : ∀ place, gone place → other place)
    (absent : ∀ place, other place → ¬gone place → store.contents place = none) :
    Purged other store next where
  silent := purged.silent
  dirtied := purged.dirtied
  removed := fun place there => by
    by_cases removed : gone place
    · exact purged.removed place removed
    · exact (purged.kept place removed).trans (absent place there removed)
  kept := fun place away => purged.kept place fun removed => away (wider place removed)

omit [EvictionHook E] in
theorem Purged.of_iff (purged : Purged gone store next) (same : ∀ place, other place ↔ gone place) :
    Purged other store next :=
  purged.widen (fun place => (same place).mpr) fun place there away =>
    absurd ((same place).mp there) away

theorem purged_purge (inside : idx < store.databases) (key : Bytes) :
    Purged (· = (idx, key)) store (store.purge idx key) := by
  obtain ⟨clock, versions, watched⟩ := touchWatch_eq idx key store
  unfold purge
  rw [watched]
  dsimp only
  split
  · have erased := contents_eraseEntry inside key
    refine
      { silent := ⟨rfl, rfl, rfl, length_set⟩
        dirtied :=
          { tracked := Option.isSome_map
            grows := fun place marked => isDirty_touchDirty.mpr (.inr marked)
            marks := fun tracking place changed => isDirty_touchDirty.mpr (.inl ⟨tracking, ?_⟩) }
        removed := ?_
        kept := ?_ }
    · by_contra away
      exact changed ((congrFun erased place).trans (Function.update_of_ne away _ _))
    · rintro _ rfl
      exact (congrFun erased _).trans (Function.update_self _ _ _)
    · intro place away
      exact (congrFun erased place).trans (Function.update_of_ne away _ _)
  · rename_i absent
    refine
      { silent := ⟨rfl, rfl, rfl, rfl⟩
        dirtied := .quiet rfl rfl
        removed := ?_
        kept := fun _ _ => rfl }
    rintro _ rfl
    have missing : store.find idx key = none := absent
    change (store.find idx key).map Entry.bare = none
    rw [missing]
    rfl

theorem purged_foldl (victims : List (Bytes × Entry)) (store : ShardStore E)
    (inside : idx < store.databases) :
    Purged (fun place => place.1 = idx ∧ place.2 ∈ victims.map Prod.fst) store
      (victims.foldl (fun store victim => store.purge idx victim.1) store) := by
  induction victims generalizing store with
  | nil => exact (Purged.nothing store).of_iff fun _ => by simp
  | cons victim victims ih =>
    have first := purged_purge inside victim.1
    have rest := ih (store.purge idx victim.1) (first.silent.databases.symm ▸ inside)
    refine (first.trans rest).of_iff fun place => ?_
    obtain ⟨db, name⟩ := place
    simp only [map_cons, mem_cons, Prod.mk.injEq]
    tauto

omit [EvictionHook E] in
/-- What a database holds under keys that the predicate picks. -/
theorem picked_iff {pred : Bytes → Bool} {key : Bytes} :
    key ∈ ((store.table idx).toList.filter fun binding => pred binding.1).map Prod.fst ↔
      pred key ∧ (store.contents (idx, key)).isSome := by
  unfold contents find
  simp only [mem_map, mem_filter, Prod.exists, exists_and_right, exists_eq_right,
    OrdMap.mem_toList, Option.isSome_map]
  rw [Option.isSome_iff_exists]
  tauto

theorem purged_removeKeysWhere (pred : Bytes → Bool) (store : ShardStore E) :
    Purged (fun place => pred place.2) store (store.removeKeysWhere pred) := by
  -- the databases below `count` are done
  have upTo : ∀ count ≤ store.databases, Purged (fun place => place.1 < count ∧ pred place.2) store
        ((range count).foldl (fun store idx =>
            let victims := (store.table idx).toList.filter fun binding => pred binding.1
            victims.foldl (fun store victim => store.purge idx victim.1) store)
          store) := by
    intro count bound
    induction count with
    | zero => exact (Purged.nothing store).of_iff fun _ => by simp
    | succ count ih =>
      have before := ih (by omega)
      rw [range_succ, foldl_append, foldl_cons, foldl_nil]
      generalize (range count).foldl _ store = middle at before ⊢
      have picked := purged_foldl ((middle.table count).toList.filter fun binding => pred binding.1)
        middle (by rw [before.silent.databases]; exact bound)
      have last := @Purged.widen E _ _ _ (fun place => place.1 = count ∧ pred place.2) picked
        (fun place gone => ⟨gone.1, (picked_iff.mp gone.2).1⟩) (fun place chosen away => by
          obtain ⟨rfl, chosen⟩ := chosen
          have missing := fun present => away ⟨rfl, picked_iff.mpr ⟨chosen, present⟩⟩
          exact Option.not_isSome_iff_eq_none.mp missing)
      refine (before.trans last).of_iff fun place => ?_
      rw [Nat.lt_succ_iff_lt_or_eq]
      tauto
  refine (upTo store.databases le_rfl).widen (fun _ gone => gone.2) fun place chosen away => ?_
  have outside : ¬place.1 < store.databases := fun inside => away ⟨inside, chosen⟩
  exact Option.not_isSome_iff_eq_none.mp fun present => outside (inside_of_contents present)

end Purge

end IronCache.Store.ShardStore
