import IronCache.Store.Watch

/-!
# What the operations alter

The places that each operation writes anew, edits or dates anew, flushes or swaps.
-/

namespace IronCache.Store

open ShardStore

/-- The rules of a run that names databases below a bound only. -/
def ranged (databases : ℕ) : Rules := ⟨False, (· < databases), True, True⟩

/-- Whether the answer of a closure writes where there was no live entry. -/
def RmwStep.Creates (step : RmwStep R) : Prop :=
  match step.action with
  | .insert _ | .replace _ => True
  | .keep | .delete | .mutated => False

/-- Whether the answer of a closure writes anew, edits or dates anew a live entry. -/
def RmwStep.Rewrites (step : RmwStep R) (deadline : Option ℕ) : Prop :=
  match step.action with
  | .insert _ | .replace _ | .mutated => True
  | .keep => resolveExpire step.expire deadline ≠ deadline
  | .delete => False

namespace ShardStore

variable {E : Type}

/-- The entry of a key that is not due. -/
def liveEntry (store : ShardStore E) (db : ℕ) (key : Bytes) (now : ℕ) : Option Entry :=
  (store.find (store.dbIndex db) key).filter (!·.isExpired now)

end ShardStore

/-- The places that a call writes anew: a key created, overwritten, edited in place, given a
different deadline or renamed over, and every key of a database flushed or swapped. -/
def Op.Rewrites {E : Type} (store : ShardStore E) (op : Op) (place : ℕ × Bytes) : Prop :=
  match op with
  | .upsert db key _ _ _ => place = (db, key)
  | .insertObject db object => place = (db, object.key)
  | .rmw db key now f => place = (db, key) ∧
      match store.liveEntry db key now with
      | none => (f none).Creates
      | some entry => (f (some entry.occupied)).Rewrites entry.expireAt
  | .rmwMut db key now f => place = (db, key) ∧
      match store.liveEntry db key now with
      | none => (f none).2.Creates
      | some entry => (f (some (entry.bumpFreq.occupiedMut
          store.encodingThresholds))).2.Rewrites entry.expireAt
  | .moveObject srcDb src dstDb dst _ replace now => place = (dstDb, dst) ∧
      (srcDb, src) ≠ (dstDb, dst) ∧ (store.liveEntry srcDb src now).isSome ∧
        (replace = false → store.liveEntry dstDb dst now = none)
  | .flushDb db => place.1 = db
  | .flushAll => place.1 < store.databases
  | .swapDb a b => a ≠ b ∧ (place.1 = a ∨ place.1 = b)
  | .read _ _ _ | .contains _ _ _ | .delete _ _ _ | .reapIfExpired _ _ _ | .removeKeysWhere _
  | .evictToFit _ _ _ => False

/-- An edit in place that the closure says nothing of changes nothing. -/
def Op.Discreet {E : Type} (store : ShardStore E) : Op → Prop
  | .rmwMut db key now f => ∀ entry, store.liveEntry db key now = some entry →
      let answer := f (some (entry.bumpFreq.occupiedMut store.encodingThresholds))
      answer.2.action = .keep → resolveExpire answer.2.expire entry.expireAt = entry.expireAt →
        (entry.bumpFreq.editAll answer.1).bare = entry.bare
  | _ => True

namespace ShardStore

section Hooked

variable {E : Type} [EvictionHook E]

theorem liveEntry_eq (db : ℕ) (key : Bytes) (now : ℕ) (store : ShardStore E) :
    (if (store.expireIfDue db (store.dbIndex db) key now).1 = true then
      (store.expireIfDue db (store.dbIndex db) key now).2.find (store.dbIndex db) key else none) =
      store.liveEntry db key now := by
  unfold liveEntry
  cases found : store.find (store.dbIndex db) key with
  | none =>
    unfold expireIfDue
    rw [found]
    rfl
  | some entry =>
    cases due : entry.isExpired now with
    | false =>
      rw [expireIfDue_of_live found due]
      simp [found, due, Option.filter_some]
    | true =>
      have dead : (store.expireIfDue db (store.dbIndex db) key now).1 = false := by
        unfold expireIfDue
        rw [found]
        simp only [due, if_true]
        split <;> rfl
      simp [dead, due, Option.filter_some]

theorem expireIfDue_fst (db : ℕ) (key : Bytes) (now : ℕ) (store : ShardStore E) :
    (store.expireIfDue db (store.dbIndex db) key now).1 = (store.liveEntry db key now).isSome := by
  rw [← liveEntry_eq]
  split
  · rename_i live
    obtain ⟨same, entry, found, -⟩ := expireIfDue_live live
    rw [same, found, live]
    rfl
  · rename_i dead
    exact Bool.eq_false_iff.mpr dead

variable {store : ShardStore E} {db : ℕ} {key : Bytes} {edited : Entry} {middle : ShardStore E}

private theorem alters_purge (inside : idx < store.databases) :
    Alters (· = (idx, key)) store (store.purge idx key) := by
  have purged := purged_purge inside key
  refine alters_at purged.silent.kept ?_ fun other away => purged.kept other away
  unfold purge
  dsimp only
  split <;> exact ⟨rfl, rfl, rfl⟩

omit [EvictionHook E] in
/-- A loop whose every turn rewrites its places. -/
theorem alters_foldl {places : α → ℕ × Bytes → Prop} (items : List α) (store : ShardStore E)
    (turns : ∀ middle : ShardStore E, middle.databases = store.databases → ∀ item ∈ items,
      Alters (places item) middle (turn middle item)) :
    Alters (fun place => ∃ item ∈ items, places item place) store (items.foldl turn store) := by
  induction items generalizing store with
  | nil => exact (Alters.refl store).of_iff fun place => by simp
  | cons item items ih =>
    have first := turns store rfl item List.mem_cons_self
    have rest := ih (turn store item) fun middle same other member =>
      turns middle (same.trans first.kept.databases) other (List.mem_cons_of_mem item member)
    exact (first.trans rest).of_iff fun place => List.exists_mem_cons_iff _ _ _

private theorem alters_removeKeysWhere : Alters (fun _ => False) store (store.removeKeysWhere pred) := by
  refine (@alters_foldl E _ _ (fun _ _ => False) _ store fun middle same idx member => ?_).of_iff
    fun place => by simp
  have inside : idx < middle.databases := same ▸ List.mem_range.mp member
  generalize listed : (middle.table idx).toList.filter (fun binding => pred binding.1) = victims
  have purged := purged_foldl victims middle inside
  have each := @alters_foldl E _ (fun store victim => store.purge idx victim.1)
    (fun victim place => place = (idx, victim.1)) victims middle
    fun later same victim _ => alters_purge (same ▸ inside)
  refine each.emptying ?_
  rintro place ⟨victim, found, rfl⟩
  have named : victim.1 ∈ victims.map Prod.fst := List.mem_map_of_mem found
  refine ⟨?_, purged.removed _ ⟨rfl, named⟩⟩
  rw [← listed] at named
  exact (picked_iff.mp named).2

/-- The entry of a key was replaced in silence. -/
structure Replaced (db : ℕ) (key : Bytes) (edited : Entry) (store middle : ShardStore E) : Prop where
  kept : Kept store middle
  watches : SameWatches store middle
  only : OnlyAt (db, key) store middle
  held : middle.find (middle.dbIndex db) key = some edited

omit [EvictionHook E] in
theorem Replaced.alters {next : ShardStore E} (replaced : Replaced db key edited store middle)
    (second : Alters (· = (db, key)) middle next) : Alters (· = (db, key)) store next :=
  second.behind replaced.kept replaced.watches replaced.only

omit [EvictionHook E] in
private theorem alters_swapDb (first : a < store.databases) (second : b < store.databases)
    (different : a ≠ b) :
    Alters (fun place => place.1 = a ∨ place.1 = b) store (store.swapDb a b) := by
  have exchanged : Kept store ((store.setTable a (store.table b)).setTable b (store.table a)) :=
    ((sameHooks_setTable a _ store).trans (sameHooks_setTable b _ _)).kept
  have elsewhere : ∀ place : ℕ × Bytes, ¬(place.1 = a ∨ place.1 = b) →
      ((store.setTable a (store.table b)).setTable b (store.table a)).contents place =
        store.contents place := by
    intro place away
    obtain ⟨notLeft, notRight⟩ := not_or.mp away
    rw [contents_setTable ((databases_setTable a _ store).symm ▸ second), if_neg notRight,
      contents_setTable first, if_neg notLeft]
  unfold swapDb
  rw [dbIndex_of_lt first, dbIndex_of_lt second]
  dsimp only
  rw [if_neg different]
  have alike : SameWatches store
      ((store.setTable a (store.table b)).setTable b (store.table a)) := ⟨rfl, rfl, rfl⟩
  generalize (store.setTable a (store.table b)).setTable b (store.table a) = middle
    at exchanged elsewhere alike ⊢
  have struck := (alters_touchAllWatchesInDb a middle).trans
    (alters_touchAllWatchesInDb b (middle.touchAllWatchesInDb a))
  have dirtied := touchBoth_eq a b ((store.table b).toList.map Prod.fst ++
    (store.table a).toList.map Prod.fst) ((middle.touchAllWatchesInDb a).touchAllWatchesInDb b)
  unfold touchBoth at dirtied
  obtain ⟨dirtyKeys, marked⟩ := dirtied
  rw [marked]
  refine (struck.over ?_ ?_ ?_).behind exchanged alike elsewhere
  · exact ⟨struck.kept.passive, struck.kept.thresholds, struck.kept.databases⟩
  · exact ⟨rfl, rfl, rfl⟩
  · exact fun _ _ => rfl

variable (inside : db < store.databases)

include inside

omit [EvictionHook E] in
theorem alters_retime (key : Bytes) (changed : new ≠ old) :
    Alters (· = (db, key)) store (store.retime db (store.dbIndex db) key old new) := by
  have index := dbIndex_of_lt inside
  have within : store.dbIndex db < (store.touchWatch db key).databases := by
    rw [(kept_touchWatch db key store).databases, index]
    exact inside
  unfold retime
  rw [if_neg changed]
  refine alters_at ?_ ?_ ?_
  · exact (kept_touchWatch db key store).trans
      ((kept_setEntryExpire _ key new _).trans (kept_observePut db _ key _))
  · exact sameWatches_setEntryExpire.trans sameWatches_observePut
  · have dated := onlyAt_setEntryExpire within key new
    rw [index] at dated ⊢
    exact (OnlyAt.of_dbs (dbs_touchWatch db key store) _).trans (dated.trans (.of_dbs dbs_observePut _))

private theorem onlyAt_putObject (key : Bytes) (entry : Entry) :
    OnlyAt (db, key) store (store.putObject db (store.dbIndex db) key entry).2 := by
  obtain ⟨image, -, traced⟩ := traced_putObject (Nat.zero_lt_of_lt inside) db key entry
  exact traced.onlyAt inside

private theorem onlyAt_expireIfDue (key : Bytes) (now : ℕ) :
    OnlyAt (db, key) store (store.expireIfDue db (store.dbIndex db) key now).2 := by
  unfold expireIfDue
  split
  · rename_i entry found
    have removed : OnlyAt (db, key) store (store.removeObject db (store.dbIndex db) key).2 := by
      rw [removeObject_eq]
      exact (traced_removeObjectCrediting (Nat.zero_lt_of_lt inside) db _ found).onlyAt inside
    split
    · split
      · exact fun _ _ => rfl
      dsimp only
      split
      · exact removed.trans fun _ _ => rfl
      · exact removed
    · exact fun _ _ => rfl
  · exact fun _ _ => rfl

private theorem alters_commitEdit (held : store.find (store.dbIndex db) key = some edited) (oldBytes : ℕ) :
    Alters (· = (db, key)) store
      (store.commitEdit db (store.dbIndex db) key oldBytes edited old new) := by
  have index := dbIndex_of_lt inside
  refine alters_at (kept_commitEdit db _ key oldBytes edited old new store) ?_ ?_
  · unfold commitEdit
    split
    · exact sameWatches_removeObjectCrediting
    refine SameWatches.trans ?_ sameWatches_observePut
    split
    · split <;> exact ⟨rfl, rfl, rfl⟩
    · refine SameWatches.trans ?_ sameWatches_setEntryExpire
      split <;> exact ⟨rfl, rfl, rfl⟩
  · unfold commitEdit
    split
    · exact (traced_removeObjectCrediting (Nat.zero_lt_of_lt inside) db oldBytes held).onlyAt inside
    have watched := OnlyAt.of_dbs (dbs_touchWatch db key store) (db, key)
    have count := (kept_touchWatch db key store).databases
    rw [index]
    refine watched.trans (.trans ?_ (.of_dbs dbs_observePut _))
    split
    · split <;> exact fun _ _ => rfl
    refine .trans ?_ (onlyAt_setEntryExpire ?_ key new)
    · split <;> exact fun _ _ => rfl
    · rw [← count] at inside
      split <;> exact inside

omit [EvictionHook E] in
private theorem replaced_setEntry (key : Bytes) (edited : Entry) :
    Replaced db key edited store (store.setEntry (store.dbIndex db) key edited) where
  kept := kept_setEntry _ key edited store
  watches := ⟨rfl, rfl, rfl⟩
  only := by
    rw [dbIndex_of_lt inside]
    exact onlyAt_setEntry inside
  held := by
    rw [(kept_setEntry _ key edited store).dbIndex]
    exact find_setEntry_self ((dbIndex_of_lt inside).symm ▸ inside) key edited

private theorem alters_editRemove (found : store.find (store.dbIndex db) key = some entry)
    (replaced : Replaced db key edited store middle) (bytes : ℕ) : Alters (fun _ => False) store
      (middle.removeObjectCrediting db (middle.dbIndex db) key bytes).2 := by
  obtain ⟨alters, emptied⟩ := alters_removeObjectCrediting
    (replaced.kept.databases.symm ▸ inside) replaced.held bytes
  refine (replaced.alters alters).emptying ?_
  rintro place rfl
  exact ⟨resident_of_find inside found, emptied⟩

private theorem alters_removing (key : Bytes) :
    Alters (· = (db, key)) store (store.removeObject db (store.dbIndex db) key).2 := by
  rw [removeObject_eq]
  cases found : store.find (store.dbIndex db) key with
  | some entry => exact (alters_removeObjectCrediting inside found _).1
  | none =>
    rw [removeObjectCrediting_of_absent found]
    exact alters_touchWatch

theorem alters_flushDb : Alters (·.1 = db) store (store.flushDb db) := by
  have removed := @alters_foldl E _ (fun middle key => (middle.removeObject db (store.dbIndex db) key).2)
    (fun key place => place = (db, key)) ((store.table (store.dbIndex db)).toList.map Prod.fst) store
    fun middle same key _ => by
      have reached : db < middle.databases := same ▸ inside
      have index : store.dbIndex db = middle.dbIndex db := by
        rw [dbIndex_of_lt inside, dbIndex_of_lt reached]
      rw [index]
      exact alters_removing reached key
  refine (removed.trans (alters_touchAllWatchesInDb db _)).of_iff fun place => ?_
  refine (or_iff_right_of_imp ?_).symm
  rintro ⟨key, -, rfl⟩
  rfl

omit inside in
private theorem alters_flushAll : Alters (·.1 < store.databases) store store.flushAll := by
  refine (@alters_foldl E _ (fun store db => store.flushDb db) (fun db place => place.1 = db) _ store
    fun middle same db member => ?_).of_iff fun place => ?_
  · exact alters_flushDb (same ▸ List.mem_range.mp member)
  · simp [databases]

end Hooked

variable {E : Type} [EvictionPolicy E]

variable {store : ShardStore E} {db : ℕ}

variable {next : ShardStore E}

omit [EvictionPolicy E] in
theorem liveEntry_eq_some (live : store.liveEntry db key now = some entry) :
    store.find (store.dbIndex db) key = some entry ∧ entry.isExpired now = false := by
  obtain ⟨found, fresh⟩ := Option.filter_eq_some_iff.mp live
  exact ⟨found, by simpa using fresh⟩

theorem expireAt_editAll (entry : Entry) (edits : List CollEdit) :
    (entry.editAll edits).expireAt = entry.expireAt := by
  unfold Entry.editAll
  split <;> rfl

theorem Cull.alters {databases : ℕ} (cull : Cull (ranged databases) store next)
    (count : store.databases = databases) : Alters (fun _ => False) store next := by
  cases cull with
  | access inside found same =>
    exact alters_quiet (kept_setEntry _ _ _ store) ⟨rfl, rfl, rfl⟩
      (contents_setEntry_of_bare inside found same)
  | expired | pool | victim | forget | reRegister =>
    exact alters_quiet ⟨rfl, rfl, rfl⟩ ⟨rfl, rfl, rfl⟩ rfl
  | remove named found => exact alters_removeObject (count.symm ▸ named) found

theorem Culls.alters (culls : Culls (ranged store.databases) store next) :
    Alters (fun _ => False) store next := by
  induction culls with
  | refl => exact .refl store
  | tail _ cull ih => exact ih.after (cull.alters ih.kept.databases)

section

variable (inside : db < store.databases) (key : Bytes) (now : ℕ)
include inside

theorem alters_expireIfDue :
    Alters (fun _ => False) store (store.expireIfDue db (store.dbIndex db) key now).2 :=
  Culls.alters (culls_expireIfDue inside rfl key now)

private theorem alters_read : Alters (fun _ => False) store (store.read db key now).2 := by
  have expired := alters_expireIfDue inside key now
  unfold read
  dsimp only
  split
  · split
    · rename_i entry found
      split
      · exact expired
      have within : store.dbIndex db < (store.expireIfDue db (store.dbIndex db) key now).2.databases := by
        rw [expired.kept.databases, dbIndex_of_lt inside]
        exact inside
      have counted : entry.bumpFreq.bare = entry.bare := rfl
      exact expired.after (alters_quiet (kept_setEntry _ key _ _) ⟨rfl, rfl, rfl⟩
        (contents_setEntry_of_bare within found counted))
    · exact expired
  · exact expired

theorem alters_put (index : store.dbIndex db = idx) (entry : Entry) :
    Alters (· = (db, key)) store (store.putObject db idx key entry).2 :=
  index ▸ alters_putObject inside key entry

private theorem alters_upsert (value : NewValue) (expire : ExpireWrite) :
    Alters (· = (db, key)) store (store.upsert db key value expire now).2 := by
  have expired := alters_expireIfDue inside key now
  have reached := expired.kept.databases.symm ▸ inside
  exact expired.after (alters_put reached key (expired.kept.dbIndex db) _)

private theorem alters_delete : Alters (fun _ => False) store (store.delete db key now).2 := by
  have expired := alters_expireIfDue inside key now
  unfold delete
  dsimp only
  split
  · rename_i live
    obtain ⟨same, entry, found, -⟩ := expireIfDue_live live
    rw [same]
    exact alters_removeObject inside found
  · exact expired

private theorem alters_reapIfExpired : Alters (fun _ => False) store (store.reapIfExpired db key now).2 := by
  unfold reapIfExpired
  dsimp only
  split
  · rename_i due
    cases found : store.find (store.dbIndex db) key with
    | none =>
      rw [found] at due
      cases due
    | some entry => exact alters_removeObject inside found
  · exact .refl store

/-- A closure that saw no live entry may create one. -/
theorem alters_vacant (index : store.dbIndex db = idx) (step : RmwStep R) :
    Alters (fun place => place = (db, key) ∧ step.Creates) store (match step.action with
      | .keep | .delete | .mutated => store
      | .insert value | .replace value =>
        store.putNew db idx key value (resolveExpire step.expire none)) := by
  unfold RmwStep.Creates
  cases step.action with
  | keep | delete | mutated => exact (Alters.refl store).failing not_false
  | insert value | replace value => exact (alters_put inside key index _).given trivial

omit [EvictionPolicy E] in
theorem alters_redate (index : store.dbIndex db = idx) (old new : Option ℕ) :
    Alters (fun place => place = (db, key) ∧ new ≠ old) store (store.retime db idx key old new) := by
  subst index
  by_cases same : new = old
  · unfold retime
    rw [if_pos same]
    exact (Alters.refl store).failing (not_not_intro same)
  · exact (alters_retime inside key same).given same

private theorem alters_rmw (never : ∀ view, (f view).action ≠ .mutated) :
    Alters ((Op.rmw db key now f).Rewrites store) store (store.rmw db key now f).2 := by
  have expired := alters_expireIfDue inside key now
  unfold rmw Op.Rewrites
  dsimp only
  rw [liveEntry_eq]
  cases live : store.liveEntry db key now with
  | none =>
    exact expired.after (alters_vacant (expired.kept.databases.symm ▸ inside) key (expired.kept.dbIndex db) _)
  | some entry =>
    obtain ⟨found, fresh⟩ := liveEntry_eq_some live
    have within := (dbIndex_of_lt inside).symm ▸ inside
    obtain ⟨hooks, same, again, held, -⟩ := accessed_spec within found
    have alike : SameWatches store (if store.saving = true then store
        else store.setEntry (store.dbIndex db) key entry.bumpFreq) := by
      split <;> exact ⟨rfl, rfl, rfl⟩
    rw [expireIfDue_of_live found fresh]
    dsimp only
    generalize (if store.saving = true then store
      else store.setEntry (store.dbIndex db) key entry.bumpFreq) = middle
      at hooks same held alike ⊢
    have accessed := alters_quiet hooks.kept alike same
    have reached := hooks.databases.symm ▸ inside
    have index := hooks.kept.dbIndex db
    refine accessed.after ?_
    unfold RmwStep.Rewrites
    cases action : (f (some entry.occupied)).action with
    | keep => exact alters_redate reached key index _ _
    | insert value | replace value => exact (alters_put reached key index _).given trivial
    | delete =>
      rw [← index] at held ⊢
      exact (alters_removeObject reached held).failing not_false
    | mutated => exact absurd action (never _)

private theorem alters_rmwMut (discreet : (Op.rmwMut db key now f).Discreet store) :
    Alters ((Op.rmwMut db key now f).Rewrites store) store (store.rmwMut db key now f).2 := by
  have expired := alters_expireIfDue inside key now
  unfold rmwMut Op.Rewrites
  dsimp only
  rw [liveEntry_eq]
  cases live : store.liveEntry db key now with
  | none =>
    exact expired.after (alters_vacant (expired.kept.databases.symm ▸ inside) key (expired.kept.dbIndex db) _)
  | some entry =>
    obtain ⟨found, fresh⟩ := liveEntry_eq_some live
    have within := (dbIndex_of_lt inside).symm ▸ inside
    rw [expireIfDue_of_live found fresh]
    dsimp only
    have quiet := discreet entry live
    generalize f (some (entry.bumpFreq.occupiedMut store.encodingThresholds)) = answer at quiet ⊢
    obtain ⟨edits, step⟩ := answer
    rw [expireAt_editAll]
    have replaced := replaced_setEntry inside key (entry.bumpFreq.editAll edits)
    have edited : (entry.bumpFreq.editAll edits).bare = entry.bare →
        (store.setEntry (store.dbIndex db) key (entry.bumpFreq.editAll edits)).contents =
          store.contents := contents_setEntry_of_bare within found
    generalize store.setEntry (store.dbIndex db) key (entry.bumpFreq.editAll edits) = middle
      at replaced edited ⊢
    have reached := replaced.kept.databases.symm ▸ inside
    have index := replaced.kept.dbIndex db
    rw [← index]
    unfold RmwStep.Rewrites
    cases action : step.action with
    | keep =>
      by_cases dated : resolveExpire step.expire entry.expireAt = entry.expireAt
      · have silent := alters_quiet replaced.kept replaced.watches (edited (quiet action dated))
        exact silent.after (alters_redate reached key rfl _ _)
      · exact (replaced.alters (alters_retime reached key dated)).given dated
    | insert value | replace value =>
      exact (replaced.alters (alters_putObject reached key _)).given trivial
    | delete => exact (alters_editRemove inside found replaced _).failing not_false
    | mutated =>
      exact (replaced.alters (alters_commitEdit reached replaced.held _)).given trivial

end

private theorem alters_moveObject (source : srcDb < store.databases) (target : dstDb < store.databases)
    (mode : MoveMode) : Alters ((Op.moveObject srcDb src dstDb dst mode replace now).Rewrites store) store
      (store.moveObject srcDb src dstDb dst mode replace now).2 := by
  have answered := expireIfDue_fst srcDb src now store
  unfold moveObject Op.Rewrites
  dsimp only
  split
  · rename_i live
    rw [answered] at live
    obtain ⟨entry, held⟩ := Option.isSome_iff_exists.mp live
    obtain ⟨found, fresh⟩ := liveEntry_eq_some held
    rw [expireIfDue_of_live found fresh]
    split
    · -- a key moved onto itself is left alone
      rename_i onto
      rw [dbIndex_of_lt source, dbIndex_of_lt target] at onto
      exact (Alters.refl store).failing fun chosen => chosen.1 (Prod.ext onto.1 onto.2)
    rename_i apart
    have different : (srcDb, src) ≠ (dstDb, dst) := by
      intro same
      cases same
      exact apart ⟨rfl, rfl⟩
    have checked := alters_expireIfDue target dst now
    have reply := expireIfDue_fst dstDb dst now store
    have kept : (store.expireIfDue dstDb (store.dbIndex dstDb) dst now).2.contents (srcDb, src) =
        store.contents (srcDb, src) := onlyAt_expireIfDue target dst now _ different
    generalize store.expireIfDue dstDb (store.dbIndex dstDb) dst now = outcome at checked reply kept ⊢
    obtain ⟨dstLive, middle⟩ := outcome
    split
    · rename_i refused
      refine checked.failing fun chosen => ?_
      obtain ⟨there, keeps⟩ := Bool.and_eq_true_iff.mp refused
      rw [reply, chosen.2.2 (by simpa using keeps)] at there
      cases there
    rename_i admitted
    have chosen : (srcDb, src) ≠ (dstDb, dst) ∧ (store.liveEntry srcDb src now).isSome ∧
        (replace = false → store.liveEntry dstDb dst now = none) := by
      refine ⟨different, live, fun keeps => ?_⟩
      rw [reply, keeps] at admitted
      simpa using admitted
    have here := checked.kept.databases.symm ▸ source
    have there := checked.kept.databases.symm ▸ target
    have resident := resident_of_find source found
    rw [← kept] at resident
    obtain ⟨still, stored⟩ := find_of_resident here resident
    rw [checked.kept.dbIndex srcDb] at stored
    rw [stored]
    rw [← checked.kept.dbIndex dstDb]
    have put := alters_putObject there dst (still.rekey dst)
    have unmoved := onlyAt_putObject there dst (still.rekey dst) _ different
    cases mode with
    | copy => exact (checked.after put).given chosen
    | rename =>
      rw [← unmoved] at resident
      have inside := put.kept.databases.symm ▸ here
      obtain ⟨last, left⟩ := find_of_resident inside resident
      rw [← checked.kept.dbIndex srcDb, ← put.kept.dbIndex srcDb]
      exact (checked.after (put.onward (alters_removeObject inside left))).given chosen
  · rename_i dead
    rw [answered] at dead
    exact (alters_expireIfDue source src now).failing fun chosen => dead chosen.2.1

end ShardStore

variable {E : Type} [EvictionPolicy E]

/-- A closure of `rmw` never answers `Mutated`. -/
def Op.ReadsOnly : Op → Prop
  | .rmw _ _ _ f => ∀ view, (f view).action ≠ .mutated
  | _ => True

/-- Every call strikes the slots of the places it rewrites or empties, and no other. -/
theorem Op.alters {held : E → Prop} {store : ShardStore E}
    (governs : ShardStore.Governs (ranged store.databases) held) (present : 0 < store.databases)
    {op : Op} (names : op.Names (ranged store.databases) held store)
    (discreet : op.Discreet store) (readsOnly : op.ReadsOnly) :
    ShardStore.Alters (op.Rewrites store) store (op.step store) := by
  cases op with
  | read db key now => exact alters_read names key now
  | contains db key now => exact alters_expireIfDue names key now
  | upsert db key value expire now => exact alters_upsert names key now value expire
  | delete db key now => exact alters_delete names key now
  | rmw db key now f => exact alters_rmw names key now readsOnly
  | rmwMut db key now f => exact alters_rmwMut names key now discreet
  | insertObject db object => exact alters_putObject names object.key _
  | moveObject srcDb src dstDb dst mode replace now =>
    exact alters_moveObject names.1 names.2 mode
  | reapIfExpired db key now => exact alters_reapIfExpired names key now
  | flushDb db => exact alters_flushDb names
  | flushAll => exact alters_flushAll
  | swapDb a b =>
    by_cases same : a = b
    · subst same
      have unmoved : store.swapDb a a = store := swapDb_self rfl
      refine (unmoved.symm ▸ ShardStore.Alters.refl store : ShardStore.Alters (fun _ => False)
        store (store.swapDb a a)).of_iff fun place => ?_
      exact ⟨fun swapped => swapped.1 rfl, False.elim⟩
    · refine (alters_swapDb names.1 names.2 same).of_iff fun place => ?_
      exact and_iff_right same
  | removeKeysWhere pred => exact alters_removeKeysWhere
  | evictToFit turns budget now =>
    exact (culls_evictToFit governs names present turns budget now).alters

end IronCache.Store
