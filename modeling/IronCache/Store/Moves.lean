import IronCache.Store.Silent

/-!
# The moves of the store

What every operation of the store keeps is shown for the moves it is made of.
-/

namespace IronCache.Store

open Relation.ReflTransGen

/-- What the calls of a run may do: whether the values they write are sound, which databases they
name, whether they edit the tables past the funnel, and whether `Mutated` from a closure of `rmw`
may write a deadline. -/
structure Rules where
  sound : Prop
  names : ℕ → Prop
  direct : Prop
  redates : Prop

namespace ShardStore

section Settings

variable {E : Type}

/-- The settings of a store, which no call changes. -/
structure Kept (store next : ShardStore E) : Prop where
  passive : next.passive = store.passive
  thresholds : next.encodingThresholds = store.encodingThresholds
  databases : next.databases = store.databases

theorem Kept.refl (store : ShardStore E) : Kept store store := ⟨rfl, rfl, rfl⟩

variable {store next : ShardStore E}

theorem Kept.trans (first : Kept store middle) (second : Kept middle next) : Kept store next where
  passive := second.passive.trans first.passive
  thresholds := second.thresholds.trans first.thresholds
  databases := second.databases.trans first.databases

theorem SameHooks.kept (hooks : SameHooks store next) : Kept store next :=
  ⟨hooks.passive, hooks.thresholds, hooks.databases⟩

theorem Silent.kept (silent : Silent store next) : Kept store next :=
  ⟨silent.passive, silent.thresholds, silent.databases⟩

theorem kept_observePut (db idx : ℕ) (key : Bytes) (store : ShardStore E) :
    Kept store (store.observePut db idx key) := by
  unfold observePut
  dsimp only
  split <;> exact ⟨rfl, rfl, rfl⟩

theorem kept_touchWatch (db : ℕ) (key : Bytes) (store : ShardStore E) :
    Kept store (store.touchWatch db key) := by
  obtain ⟨clock, versions, watched⟩ := touchWatch_eq db key store
  rw [watched]
  exact ⟨rfl, rfl, rfl⟩

theorem kept_setEntry (idx : ℕ) (key : Bytes) (entry : Entry) (store : ShardStore E) :
    Kept store (store.setEntry idx key entry) :=
  (sameHooks_setTable _ _ store).kept

theorem kept_setEntryExpire (idx : ℕ) (key : Bytes) (deadline : Option ℕ) (store : ShardStore E) :
    Kept store (store.setEntryExpire idx key deadline) := by
  unfold setEntryExpire
  split
  · exact kept_setEntry _ _ _ store
  · exact .refl store

theorem Kept.dbIndex (kept : Kept store next) (db : ℕ) : next.dbIndex db = store.dbIndex db := by
  have same := kept.databases
  unfold ShardStore.databases at same
  unfold ShardStore.dbIndex
  rw [same]

variable [EvictionHook E]

theorem kept_putObject (db idx : ℕ) (key : Bytes) (entry : Entry) (store : ShardStore E) :
    Kept store (store.putObject db idx key entry).2 := by
  refine (kept_touchWatch db key store).trans ?_
  unfold putObject
  dsimp only
  split
  · refine Kept.trans ?_ (kept_observePut db idx key _)
    exact ⟨rfl, rfl, List.length_set⟩
  · refine Kept.trans ?_ (kept_observePut db idx key _)
    exact ⟨rfl, rfl, List.length_set⟩

theorem kept_removeObjectCrediting (db idx : ℕ) (key : Bytes) (bytes : ℕ) (store : ShardStore E) :
    Kept store (store.removeObjectCrediting db idx key bytes).2 := by
  refine (kept_touchWatch db key store).trans ?_
  unfold removeObjectCrediting
  dsimp only
  split
  · exact ⟨rfl, rfl, List.length_set⟩
  · exact .refl _

theorem kept_commitEdit (db idx : ℕ) (key : Bytes) (oldBytes : ℕ) (edited : Entry)
    (before after : Option ℕ) (store : ShardStore E) :
    Kept store (store.commitEdit db idx key oldBytes edited before after) := by
  unfold commitEdit
  split
  · exact kept_removeObjectCrediting db idx key oldBytes store
  refine (kept_touchWatch db key store).trans (Kept.trans ?_ (kept_observePut db idx key _))
  generalize store.touchWatch db key = watched
  have weighed : Kept watched (if edited.accountedBytes = oldBytes then watched
      else (((watched.policyRemove db key oldBytes).accountSub oldBytes).accountAdd
        edited.accountedBytes).policyInsert db key edited.accountedBytes) := by
    split <;> exact ⟨rfl, rfl, rfl⟩
  generalize (if edited.accountedBytes = oldBytes then watched else _) = middle at weighed ⊢
  refine weighed.trans ?_
  split
  · exact .refl middle
  · exact kept_setEntryExpire idx key after middle

end Settings

section Lookup

variable {E : Type} [EvictionHook E]

variable {store : ShardStore E}

variable {idx now : ℕ} {key : Bytes} {entry : Entry}

theorem expireIfDue_of_live (found : store.find idx key = some entry)
    (live : entry.isExpired now = false) : store.expireIfDue db idx key now = (true, store) := by
  unfold expireIfDue
  rw [found]
  simp [live]

/-- What the expiry check answers, beside what it removes. -/
theorem expireIfDue_live (live : (store.expireIfDue db idx key now).1 = true) :
    (store.expireIfDue db idx key now).2 = store ∧
      ∃ entry, store.find idx key = some entry ∧ entry.isExpired now = false := by
  cases found : store.find idx key with
  | none =>
    unfold expireIfDue at live
    rw [found] at live
    cases live
  | some entry =>
    cases due : entry.isExpired now with
    | true =>
      rw [expireIfDue_of_due found due] at live
      cases live
    | false => exact ⟨congrArg Prod.snd (expireIfDue_of_live found due), entry, rfl, due⟩

/-- An entry that the check let pass: nothing was removed, and it is live. -/
theorem expireIfDue_found
    (found : (if (store.expireIfDue db idx key now).1 = true then
      (store.expireIfDue db idx key now).2.find idx key else none) = some entry) :
    (store.expireIfDue db idx key now).2 = store ∧ store.find idx key = some entry ∧
      entry.isExpired now = false := by
  split_ifs at found with live
  obtain ⟨same, held, stored, fresh⟩ := expireIfDue_live live
  rw [same, stored] at found
  cases found
  exact ⟨same, stored, fresh⟩

omit [EvictionHook E] in
theorem Formed.find (formed : store.Formed) (found : store.find idx key = some entry) :
    entry.Formed key := by
  have here : store.contents (idx, key) = some entry.bare := by
    unfold contents
    rw [found]
    rfl
  exact formed (idx, key) entry.bare here

theorem formed_fromNewOwned (machine : ∀ number, value = .int number → InI64 number) :
    (Entry.fromNewOwned key value expireAt thresholds).Formed key :=
  ⟨rfl, Value.sound_ofNew machine⟩

omit [EvictionHook E] in
theorem find_setEntry_self (inside : idx < store.databases) (key : Bytes) (entry : Entry) :
    (store.setEntry idx key entry).find idx key = some entry :=
  (find_setEntry inside key entry idx key).trans (if_pos ⟨rfl, rfl⟩)

end Lookup

variable {E : Type} [EvictionPolicy E]

inductive Move (rules : Rules) : ShardStore E → ShardStore E → Prop
  | access (inside : idx < store.databases) (found : store.find idx key = some old)
      (same : entry.bare = old.bare) : Move rules store (store.setEntry idx key entry)
  | expired : Move rules store { store with lazyExpired := store.lazyExpired + 1 }
  | pool (candidates : List PoolCandidate) (named : ∀ candidate ∈ candidates, rules.names candidate.db) :
      Move rules store { store with evictPool := candidates }
  | victim (freq : ℕ → Bytes → Option ℕ) : Move rules store
        { store with eviction := (EvictionHook.selectVictim freq store.eviction).2.2 }
  | forget (absent : store.find (store.dbIndex db) key = none) :
      Move rules store (store.policyRemove db key 0)
  | reRegister (named : rules.names db) :
      Move rules store { store with eviction := EvictionPolicy.reRegister db key store.eviction }
  | watch (db : ℕ) : Move rules store (store.touchAllWatchesInDb db)
  | put (named : rules.names db) (formed : rules.sound → store.Formed → entry.Formed key) :
      Move rules store (store.putObject db (store.dbIndex db) key entry).2
  | remove (named : rules.names db) (key : Bytes) :
      Move rules store (store.removeObject db (store.dbIndex db) key).2
  | retime (named : rules.names db) (found : store.find (store.dbIndex db) key = some entry)
      (deadline : Option ℕ) :
      Move rules store (((store.touchWatch db key).setEntryExpire (store.dbIndex db) key
        deadline).observePut db (store.dbIndex db) key)
  | edit (accessed : Entry) (named : rules.names db)
      (found : store.find (store.dbIndex db) key = some old) (same : accessed.bare = old.bare)
  (edits : List CollEdit) (before after : Option ℕ) :
      Move rules store ((store.setEntry (store.dbIndex db) key (accessed.editAll edits)).commitEdit
        db (store.dbIndex db) key accessed.accountedBytes (accessed.editAll edits) before after)
  | editRemove (accessed : Entry) (named : rules.names db)
      (found : store.find (store.dbIndex db) key = some old) (same : accessed.bare = old.bare)
      (edits : List CollEdit) : Move rules store ((store.setEntry (store.dbIndex db) key
        (accessed.editAll edits)).removeObjectCrediting db (store.dbIndex db) key accessed.accountedBytes).2
  | redate (allowed : rules.redates) (inside : idx < store.databases)
      (found : store.find idx key = some entry) (deadline : Option ℕ) :
      Move rules store (store.setEntryExpire idx key deadline)
  | swap (allowed : rules.direct) (named : rules.names a ∧ rules.names b) :
      Move rules store (store.swapDb a b)
  | purge (allowed : rules.direct) (inside : idx < store.databases) (key : Bytes) :
      Move rules store (store.purge idx key)

def Moves (rules : Rules) : ShardStore E → ShardStore E → Prop := Relation.ReflTransGen (Move rules)

/-- What expiry and eviction are made of: a removal finds its entry. -/
inductive Cull (rules : Rules) : ShardStore E → ShardStore E → Prop
  | access (inside : idx < store.databases) (found : store.find idx key = some old)
      (same : entry.bare = old.bare) : Cull rules store (store.setEntry idx key entry)
  | expired : Cull rules store { store with lazyExpired := store.lazyExpired + 1 }
  | pool (candidates : List PoolCandidate) (named : ∀ candidate ∈ candidates, rules.names candidate.db) :
      Cull rules store { store with evictPool := candidates }
  | victim (freq : ℕ → Bytes → Option ℕ) : Cull rules store
        { store with eviction := (EvictionHook.selectVictim freq store.eviction).2.2 }
  | forget (absent : store.find (store.dbIndex db) key = none) :
      Cull rules store (store.policyRemove db key 0)
  | reRegister (named : rules.names db) :
      Cull rules store { store with eviction := EvictionPolicy.reRegister db key store.eviction }
  | remove (named : rules.names db) (found : store.find (store.dbIndex db) key = some entry) :
      Cull rules store (store.removeObject db (store.dbIndex db) key).2

def Culls (rules : Rules) : ShardStore E → ShardStore E → Prop := Relation.ReflTransGen (Cull rules)

variable {rules : Rules} {store middle next : ShardStore E} {db idx : ℕ}

theorem Moves.refl (store : ShardStore E) : Moves rules store store :=
  Relation.ReflTransGen.refl

theorem Moves.trans (first : Moves rules store middle) (second : Moves rules middle next) :
    Moves rules store next :=
  Relation.ReflTransGen.trans first second

theorem Move.moves (move : Move rules store next) : Moves rules store next :=
  Relation.ReflTransGen.single move

theorem Moves.then (first : Moves rules store middle) (second : Move rules middle next) :
    Moves rules store next :=
  tail first second

theorem Move.kept (move : Move rules store next) : Kept store next := by
  cases move with
  | access => exact kept_setEntry _ _ _ store
  | expired | pool | victim | forget | reRegister => exact ⟨rfl, rfl, rfl⟩
  | watch db =>
    obtain ⟨clock, versions, watched⟩ := touchAllWatchesInDb_eq db store
    rw [watched]
    exact ⟨rfl, rfl, rfl⟩
  | put => exact kept_putObject _ _ _ _ store
  | remove named key =>
    rw [removeObject_eq]
    exact kept_removeObjectCrediting _ _ _ _ store
  | retime named found deadline =>
    exact (kept_touchWatch _ _ store).trans ((kept_setEntryExpire _ _ _ _).trans (kept_observePut _ _ _ _))
  | edit => exact (kept_setEntry _ _ _ store).trans (kept_commitEdit _ _ _ _ _ _ _ _)
  | editRemove => exact (kept_setEntry _ _ _ store).trans (kept_removeObjectCrediting _ _ _ _ _)
  | redate => exact kept_setEntryExpire _ _ _ store
  | swap => exact silent_swapDb.kept
  | purge allowed inside key => exact (purged_purge inside key).silent.kept

theorem Moves.kept (moves : Moves rules store next) : Kept store next := by
  induction moves with
  | refl => exact .refl store
  | tail _ move ih => exact ih.trans move.kept

theorem Moves.present (moves : Moves rules store next) (present : 0 < store.databases) : 0 < next.databases :=
  moves.kept.databases ▸ present

theorem Culls.refl (store : ShardStore E) : Culls rules store store :=
  Relation.ReflTransGen.refl

theorem Culls.trans (first : Culls rules store middle) (second : Culls rules middle next) :
    Culls rules store next :=
  Relation.ReflTransGen.trans first second

theorem Cull.culls (cull : Cull rules store next) : Culls rules store next :=
  Relation.ReflTransGen.single cull

theorem Culls.then (first : Culls rules store middle) (second : Cull rules middle next) :
    Culls rules store next :=
  tail first second

theorem Cull.move (cull : Cull rules store next) : Move rules store next := by
  cases cull with
  | access inside found same => exact .access inside found same
  | expired => exact .expired
  | pool candidates named => exact .pool candidates named
  | victim freq => exact .victim freq
  | forget absent => exact .forget absent
  | reRegister named => exact .reRegister named
  | remove named found => exact .remove named _

theorem Culls.moves (culls : Culls rules store next) : Moves rules store next :=
  mono (fun _ _ cull => cull.move) _ _ culls

section

variable (named : rules.names db)
include named

theorem moves_removeObject (index : store.dbIndex db = idx) (key : Bytes) :
    Moves rules store (store.removeObject db idx key).2 :=
  index ▸ (Move.remove named key).moves

theorem moves_putObject (index : store.dbIndex db = idx)
    (formed : rules.sound → store.Formed → entry.Formed key) :
    Moves rules store (store.putObject db idx key entry).2 :=
  index ▸ (Move.put named formed).moves

theorem culls_expireIfDue (index : store.dbIndex db = idx) (key : Bytes) (now : ℕ) :
    Culls rules store (store.expireIfDue db idx key now).2 := by
  subst index
  unfold expireIfDue
  split
  · rename_i entry found
    split_ifs
    · exact .refl store
    · dsimp only
      split_ifs
      · exact (Cull.remove named found).culls.then .expired
      · exact (Cull.remove named found).culls
    · exact .refl store
  · exact .refl store

theorem moves_expireIfDue (store : ShardStore E) (key : Bytes) (now : ℕ) :
    Moves rules store (store.expireIfDue db (store.dbIndex db) key now).2 :=
  (culls_expireIfDue named rfl key now).moves

omit named in
theorem moves_read (present : 0 < store.databases) (named : rules.names db) (key : Bytes) (now : ℕ) :
    Moves rules store (store.read db key now).2 := by
  have expired := moves_expireIfDue named store key now
  unfold read
  dsimp only
  split
  · split
    · rename_i entry found
      split
      · exact expired
      refine expired.then (.access ?_ found rfl)
      rw [expired.kept.databases]
      exact dbIndex_lt present db
    · exact expired
  · exact expired

theorem moves_upsert (key : Bytes) (expire : ExpireWrite) (now : ℕ)
    (machine : rules.sound → ∀ number, value = .int number → InI64 number) :
    Moves rules store (store.upsert db key value expire now).2 := by
  have expired := moves_expireIfDue named store key now
  unfold upsert
  dsimp only
  refine expired.trans (moves_putObject named (expired.kept.dbIndex db) ?_)
  intro ok _
  refine formed_fromNewOwned fun number same => ?_
  cases value with
  | bytes text => cases same
  | int held =>
    cases same
    exact machine ok number rfl

theorem moves_delete (key : Bytes) (now : ℕ) : Moves rules store (store.delete db key now).2 := by
  have expired := moves_expireIfDue named store key now
  unfold delete
  dsimp only
  split
  · exact expired.trans (moves_removeObject named (expired.kept.dbIndex db) key)
  · exact expired

theorem moves_reapIfExpired (key : Bytes) (now : ℕ) :
    Moves rules store (store.reapIfExpired db key now).2 := by
  unfold reapIfExpired
  dsimp only
  split
  · exact moves_removeObject named rfl key
  · exact .refl store

theorem moves_insertObject (sound : rules.sound → (Entry.fromKvobj object).value.Sound) :
    Moves rules store (store.insertObject db object) :=
  moves_putObject named rfl fun ok _ => ⟨rfl, sound ok⟩

end

theorem moves_moveObject (source : rules.names srcDb) (target : rules.names dstDb) (src dst : Bytes)
    (mode : MoveMode) (replace : Bool) (now : ℕ) :
    Moves rules store (store.moveObject srcDb src dstDb dst mode replace now).2 := by
  have expired := moves_expireIfDue source store src now
  have checked : Moves rules store ((store.expireIfDue srcDb (store.dbIndex srcDb) src
      now).2.expireIfDue dstDb (store.dbIndex dstDb) dst now).2 :=
    expired.trans (culls_expireIfDue target (expired.kept.dbIndex dstDb) dst now).moves
  unfold moveObject
  dsimp only
  split
  · split
    · exact expired
    split
    · exact checked
    split
    · exact checked
    rename_i entry found
    have put := checked.trans (moves_putObject target (checked.kept.dbIndex dstDb)
      fun _ formed => (⟨rfl, (Formed.find formed found).2⟩ : (entry.rekey dst).Formed dst))
    cases mode with
    | rename =>
      dsimp only
      exact put.trans (moves_removeObject source (put.kept.dbIndex srcDb) src)
    | copy => exact put
  · exact expired

variable {turn : ShardStore E → α → ShardStore E} {key : Bytes} {entry : Entry}

omit [EvictionPolicy E] in
theorem reach_foldl {step : ShardStore E → ShardStore E → Prop} (items : List α)
    (steps : ∀ middle, Relation.ReflTransGen step store middle → ∀ item ∈ items,
      Relation.ReflTransGen step middle (turn middle item)) :
    Relation.ReflTransGen step store (items.foldl turn store) := by
  suffices onward : ∀ middle, Relation.ReflTransGen step store middle →
      Relation.ReflTransGen step store (items.foldl turn middle) from onward store .refl
  induction items with
  | nil => exact fun middle so => so
  | cons item items ih =>
    intro middle so
    refine ih (fun later reached other member =>
      steps later reached other (List.mem_cons_of_mem _ member)) _ ?_
    exact so.trans (steps middle so item List.mem_cons_self)

theorem Moves.foldl (items : List α)
    (moves : ∀ middle, Moves rules store middle → ∀ item ∈ items, Moves rules middle (turn middle item)) :
    Moves rules store (items.foldl turn store) :=
  reach_foldl items moves

theorem Culls.foldl (items : List α)
    (culls : ∀ middle, Culls rules store middle → ∀ item ∈ items, Culls rules middle (turn middle item)) :
    Culls rules store (items.foldl turn store) :=
  reach_foldl items culls

theorem moves_flushDb (named : rules.names db) : Moves rules store (store.flushDb db) := by
  refine Moves.then (.foldl _ fun middle so key _ => ?_) (.watch db)
  exact moves_removeObject named (so.kept.dbIndex db) key

theorem moves_putNew (named : rules.names db) (index : store.dbIndex db = idx)
    (machine : rules.sound → ∀ number, value = .int number → InI64 number) :
    Moves rules store (store.putNew db idx key value expireAt) :=
  moves_putObject named index fun ok _ => formed_fromNewOwned (machine ok)

theorem moves_retime (named : rules.names db) (index : store.dbIndex db = idx)
    (found : store.find idx key = some entry) : Moves rules store (store.retime db idx key old new) := by
  subst index
  unfold retime
  split
  · exact .refl store
  · exact (Move.retime named found new).moves

/-- Counting an access, unless a save is running. -/
private theorem moves_access (inside : idx < store.databases) (found : store.find idx key = some entry) :
    Moves rules store
        (if store.saving = true then store else store.setEntry idx key entry.bumpFreq) ∧
      ∃ again, (if store.saving = true then store
        else store.setEntry idx key entry.bumpFreq).find idx key = some again ∧ again.bare = entry.bare := by
  split
  · exact ⟨.refl store, entry, found, rfl⟩
  have counted : entry.bumpFreq.bare = entry.bare := rfl
  exact ⟨(Move.access inside found counted).moves, entry.bumpFreq, find_setEntry_self inside key _, counted⟩

/-- A closure that saw no live entry may insert one. -/
theorem moves_vacant (named : rules.names db) (index : store.dbIndex db = idx) (step : RmwStep R)
    (machine : rules.sound → ∀ number, step.action = .insert (.int number) ∨
      step.action = .replace (.int number) → InI64 number) :
    Moves rules store (match step.action with
      | .keep | .delete | .mutated => store
      | .insert value | .replace value =>
        store.putNew db idx key value (resolveExpire step.expire none)) := by
  split
  · exact .refl store
  · exact .refl store
  · exact .refl store
  · rename_i value chosen
    refine moves_putNew named index fun ok number same => ?_
    exact machine ok number (.inl (same ▸ chosen))
  · rename_i value chosen
    refine moves_putNew named index fun ok number same => ?_
    exact machine ok number (.inr (same ▸ chosen))

theorem moves_rmw (present : 0 < store.databases) (named : rules.names db) (key : Bytes) (now : ℕ)
    {f : Option OccupiedEntry → RmwStep R}
    (machine : rules.sound → ∀ view number, (f view).action = .insert (.int number) ∨
      (f view).action = .replace (.int number) → InI64 number)
    (leaves : ¬rules.redates → ∀ entry, store.find (store.dbIndex db) key = some entry →
      entry.isExpired now = false → (f (some entry.occupied)).action = .mutated →
      resolveExpire (f (some entry.occupied)).expire entry.expireAt = entry.expireAt) :
    Moves rules store (store.rmw db key now f).2 := by
  have expired := moves_expireIfDue named store key now
  unfold rmw
  dsimp only
  split
  · exact expired.trans (moves_vacant named (expired.kept.dbIndex db) _ fun ok => machine ok _)
  rename_i entry found
  obtain ⟨same, stored, fresh⟩ := expireIfDue_found found
  rw [same]
  have accessed := @moves_access E _ rules store _ key entry (dbIndex_lt present db) stored
  obtain ⟨accessed, again, kept, bare⟩ := accessed
  have index := accessed.kept.dbIndex db
  split
  · exact accessed.trans (moves_retime named index kept)
  · rename_i value chosen
    refine accessed.trans (moves_putNew named index fun ok number same => ?_)
    exact machine ok _ number (.inl (same ▸ chosen))
  · rename_i value chosen
    refine accessed.trans (moves_putNew named index fun ok number same => ?_)
    exact machine ok _ number (.inr (same ▸ chosen))
  · exact accessed.trans (moves_removeObject named index key)
  · rename_i chosen
    split
    · exact accessed
    rename_i changed
    have allowed : rules.redates :=
      by_contra fun strict => changed (leaves strict entry stored fresh chosen)
    refine accessed.then (.redate allowed ?_ kept _)
    rw [accessed.kept.databases]
    exact dbIndex_lt present db

private theorem editAll_nil : entry.editAll [] = entry := by
  obtain ⟨key, value, expireAt, freq⟩ := entry
  cases value <;> rfl

theorem moves_rmwMut (present : 0 < store.databases) (named : rules.names db) (key : Bytes)
    (now : ℕ) {f : Option OccupiedEntryMut → List CollEdit × RmwStep R}
    (machine : rules.sound → ∀ view number, (f view).2.action = .insert (.int number) ∨
      (f view).2.action = .replace (.int number) → InI64 number)
    (honest : ∀ view, (f view).1 ≠ [] → (f view).2.action = .mutated ∨ (f view).2.action = .delete) :
    Moves rules store (store.rmwMut db key now f).2 := by
  have expired := moves_expireIfDue named store key now
  unfold rmwMut
  dsimp only
  split
  · exact expired.trans (moves_vacant named (expired.kept.dbIndex db) _ fun ok => machine ok _)
  rename_i entry found
  obtain ⟨same, stored, fresh⟩ := expireIfDue_found found
  rw [same]
  have inside := dbIndex_lt present db
  have ints := fun ok => machine ok (some (entry.bumpFreq.occupiedMut store.encodingThresholds))
  specialize honest (some (entry.bumpFreq.occupiedMut store.encodingThresholds))
  generalize f (some (entry.bumpFreq.occupiedMut store.encodingThresholds)) = answer at honest ints
  obtain ⟨edits, step⟩ := answer
  dsimp only at honest ints ⊢
  -- A closure that answers otherwise has left the value alone.
  have untouched : step.action ≠ .mutated → step.action ≠ .delete → edits = [] := by
    intro notMutated notDeleted
    by_contra edited
    exact (honest edited).elim notMutated notDeleted
  have counted : entry.bumpFreq.bare = entry.bare := rfl
  have accessed : Moves rules store (store.setEntry (store.dbIndex db) key entry.bumpFreq) :=
    (Move.access inside stored counted).moves
  have index := accessed.kept.dbIndex db
  have held := find_setEntry_self inside key entry.bumpFreq
  split
  · rename_i chosen
    rw [untouched (by simp [chosen]) (by simp [chosen]), editAll_nil]
    exact accessed.trans (moves_retime named index held)
  · rename_i value chosen
    rw [untouched (by simp [chosen]) (by simp [chosen]), editAll_nil]
    refine accessed.trans (moves_putNew named index fun ok number same => ?_)
    exact ints ok number (.inl (same ▸ chosen))
  · rename_i value chosen
    rw [untouched (by simp [chosen]) (by simp [chosen]), editAll_nil]
    refine accessed.trans (moves_putNew named index fun ok number same => ?_)
    exact ints ok number (.inr (same ▸ chosen))
  · exact (Move.editRemove entry.bumpFreq named stored counted edits).moves
  · exact (Move.edit entry.bumpFreq named stored counted edits _ _).moves

theorem moves_removeKeysWhere (allowed : rules.direct) (pred : Bytes → Bool) :
    Moves rules store (store.removeKeysWhere pred) := by
  refine .foldl _ fun middle so idx member => ?_
  refine .foldl _ fun later reached victim _ => (Move.purge allowed ?_ victim.1).moves
  rw [reached.kept.databases, so.kept.databases]
  exact List.mem_range.mp member

end ShardStore

end IronCache.Store
