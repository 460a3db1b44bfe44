import IronCache.Store.Moves

/-!
# Eviction as moves

The loops of `evict_to_fit` are made of moves.
-/

namespace IronCache.Store.ShardStore

open List

section Roster

variable {E : Type}

/-- What eviction goes by. -/
structure SameRoster (store next : ShardStore E) : Prop where
  eviction : next.eviction = store.eviction
  evictPool : next.evictPool = store.evictPool

theorem SameRoster.trans (first : SameRoster store middle) (second : SameRoster middle later) :
    SameRoster store later :=
  ⟨second.eviction.trans first.eviction, second.evictPool.trans first.evictPool⟩

theorem sameRoster_touchWatch : SameRoster store (store.touchWatch db key) := by
  obtain ⟨clock, versions, watched⟩ := touchWatch_eq db key store
  rw [watched]
  exact ⟨rfl, rfl⟩

theorem sameRoster_observePut (db idx : ℕ) (key : Bytes) (store : ShardStore E) :
    SameRoster store (store.observePut db idx key) := by
  unfold observePut
  dsimp only
  split <;> exact ⟨rfl, rfl⟩

theorem sameRoster_setEntryExpire (idx : ℕ) (key : Bytes) (deadline : Option ℕ)
    (store : ShardStore E) : SameRoster store (store.setEntryExpire idx key deadline) := by
  unfold setEntryExpire
  split <;> exact ⟨rfl, rfl⟩

end Roster

variable {E : Type} [EvictionPolicy E] {rules : Rules}

/-- A property of a policy that its hooks keep and that holds its victims to databases that may
be named. -/
structure Governs (rules : Rules) (held : E → Prop) : Prop where
  insert : rules.names db → held policy → held (EvictionHook.onInsert db key bytes policy)
  remove : held policy → held (EvictionHook.onRemove db key bytes policy)
  victim : held policy → held (EvictionHook.selectVictim freq policy).2.2 ∧
    ∀ place ∈ (EvictionHook.selectVictim freq policy).1, rules.names place.1
  reRegister : rules.names db → held policy → held (EvictionPolicy.reRegister db key policy)

/-- Eviction picks its victims among databases that may be named. -/
structure Steered (rules : Rules) (held : E → Prop) (store : ShardStore E) : Prop where
  policy : held store.eviction
  pool : ∀ candidate ∈ store.evictPool, rules.names candidate.db
  databases : ∀ db < store.databases, rules.names db

variable {store : ShardStore E}

variable {next : ShardStore E}

omit [EvictionPolicy E] in
theorem Steered.of_sameRoster {held : E → Prop} (steered : Steered rules held store)
    (same : SameRoster store next) (count : next.databases = store.databases) : Steered rules held next where
  policy := same.eviction ▸ steered.policy
  pool := same.evictPool ▸ steered.pool
  databases := count ▸ steered.databases

/-- Where any database may be named there is nothing to steer. -/
theorem governs_of_names (any : ∀ db, rules.names db) : Governs rules fun _ : E => True where
  insert _ _ := trivial
  remove _ := trivial
  victim _ := ⟨trivial, fun place _ => any place.1⟩
  reRegister _ _ := trivial

variable {held : E → Prop}

omit [EvictionPolicy E] in
theorem Steered.setEntry (steered : Steered rules held store) (idx : ℕ) (key : Bytes)
    (entry : Entry) : Steered rules held (store.setEntry idx key entry) :=
  steered.of_sameRoster ⟨rfl, rfl⟩ (kept_setEntry idx key entry store).databases

omit [EvictionPolicy E] in
theorem Steered.observePut (steered : Steered rules held store) (db idx : ℕ) (key : Bytes) :
    Steered rules held (store.observePut db idx key) :=
  steered.of_sameRoster (sameRoster_observePut db idx key store) (kept_observePut db idx key store).databases

private theorem mem_keepColdest (member : cold ∈ keepColdest heap candidate) :
    cold = candidate ∨ cold ∈ heap := by
  unfold keepColdest at member
  split at member
  · exact .inr member
  rcases mem_append.mp (mem_of_mem_take member) with before | after
  · exact .inr ((takeWhile_sublist _).subset before)
  rcases mem_cons.mp after with here | after
  · exact .inl here
  · exact .inr ((dropWhile_sublist _).subset after)

omit [EvictionPolicy E] in
private theorem inside_of_resident (member : resident ∈ store.residents) : resident.1 < store.databases := by
  obtain ⟨db, bound, listed⟩ := mem_flatMap.mp member
  obtain ⟨binding, -, rfl⟩ := mem_map.mp listed
  exact mem_range.mp bound

theorem culls_refillEvictPool (named : ∀ db < store.databases, rules.names db) (now : ℕ) :
    Culls rules store (store.refillEvictPool now) := by
  unfold refillEvictPool
  rw [partition_eq_filter_filter]
  -- what the scan keeps are residents
  have scanned : ∀ (heap : List ColdEntry) (found : List (ℕ × Bytes × Entry)),
      (∀ cold ∈ heap, rules.names cold.db) → (∀ resident ∈ found, rules.names resident.1) →
      ∀ cold ∈ found.foldl (fun heap resident => keepColdest heap
        ⟨resident.2.2.freq, scanHash resident.2.1, resident.2.1, resident.1⟩) heap,
        rules.names cold.db := by
    intro heap found
    induction found generalizing heap with
    | nil => exact fun kept _ => kept
    | cons resident found ih =>
      intro kept residents
      refine ih _ (fun cold member => ?_) fun other listed =>
        residents other (mem_cons_of_mem _ listed)
      rcases mem_keepColdest member with rfl | member
      · exact residents resident mem_cons_self
      · exact kept cold member
  refine Culls.then (.foldl _ fun middle so resident member => ?_) (.pool _ fun candidate member => ?_)
  · have listed := (mem_filter.mp member).1
    exact culls_expireIfDue (named _ (inside_of_resident listed)) rfl _ now
  · obtain ⟨cold, listed, rfl⟩ := mem_map.mp member
    refine scanned [] _ (fun _ none => absurd none not_mem_nil) (fun resident found => ?_) cold
      (mem_reverse.mp listed)
    exact named _ (inside_of_resident (mem_filter.mp (mem_filter.mp found).1).1)

private theorem culls_evictCandidate (steered : Steered rules held store) (named : rules.names candidate.db)
    (refilled : Bool) (now : ℕ) : Culls rules store (store.evictCandidate candidate refilled now).2.2 := by
  unfold evictCandidate
  dsimp only
  split
  · exact .refl store
  rename_i entry found
  split
  · exact culls_expireIfDue named rfl _ now
  split
  · exact .refl store
  split
  · have cleared : Cull rules store { store with evictPool := [] } :=
      .pool [] fun _ member => absurd member not_mem_nil
    exact cleared.culls.trans
      (@culls_refillEvictPool E _ rules { store with evictPool := [] } steered.databases now)
  · exact (Cull.remove named found).culls

private theorem culls_selectVictim (present : 0 < store.databases) :
    Culls rules store store.selectVictim.2 := by
  refine (Cull.victim _).culls.trans (.foldl _ fun middle so place _ => ?_)
  unfold decFreq
  dsimp only
  split
  · rename_i entry found
    have counted : (entry.setFreq (entry.freq - 1)).bare = entry.bare := rfl
    refine (Cull.access ?_ found counted).culls
    exact dbIndex_lt (so.moves.present present) _
  · exact .refl middle

variable (governs : Governs rules held) (steered : Steered rules held store)

include governs steered

theorem Steered.removeObjectCrediting (db idx : ℕ) (key : Bytes) (bytes : ℕ) :
    Steered rules held (store.removeObjectCrediting db idx key bytes).2 := by
  have kept := kept_removeObjectCrediting db idx key bytes store
  obtain ⟨clock, versions, watched⟩ := touchWatch_eq db key store
  unfold ShardStore.removeObjectCrediting at kept ⊢
  rw [watched] at kept ⊢
  dsimp only at kept ⊢
  split at kept
  · exact ⟨governs.remove steered.policy, steered.pool, kept.databases ▸ steered.databases⟩
  · exact ⟨steered.policy, steered.pool, steered.databases⟩

theorem Steered.putObject (named : rules.names db) (idx : ℕ) (key : Bytes) (entry : Entry) :
    Steered rules held (store.putObject db idx key entry).2 := by
  obtain ⟨clock, versions, watched⟩ := touchWatch_eq db key store
  unfold ShardStore.putObject
  rw [watched]
  dsimp only
  split
  · refine Steered.observePut ?_ db idx key
    exact ⟨steered.policy, steered.pool, (kept_setEntry idx key _ store).databases ▸ steered.databases⟩
  refine Steered.observePut ?_ db idx key
  exact ⟨governs.insert named steered.policy, steered.pool,
    (kept_setEntry idx key entry store).databases ▸ steered.databases⟩

theorem Steered.commitEdit (named : rules.names db) (idx : ℕ) (key : Bytes) (oldBytes : ℕ)
    (edited : Entry) (before after : Option ℕ) :
    Steered rules held (store.commitEdit db idx key oldBytes edited before after) := by
  have count := (kept_commitEdit db idx key oldBytes edited before after store).databases
  unfold ShardStore.commitEdit at count ⊢
  split
  · exact steered.removeObjectCrediting governs db idx key oldBytes
  rename_i filled
  rw [if_neg filled] at count
  dsimp only at count ⊢
  obtain ⟨clock, versions, watched⟩ := touchWatch_eq db key store
  rw [watched] at count ⊢
  generalize weighed : (if edited.accountedBytes = oldBytes then _ else _) = middle at count ⊢
  have guided : held middle.eviction ∧ middle.evictPool = store.evictPool := by
    subst weighed
    split
    · exact ⟨steered.policy, rfl⟩
    · exact ⟨governs.insert named (governs.remove steered.policy), rfl⟩
  have dated : SameRoster middle (if after = before then middle
      else middle.setEntryExpire idx key after) := by
    split
    · exact ⟨rfl, rfl⟩
    · exact sameRoster_setEntryExpire idx key after middle
  have same := dated.trans (sameRoster_observePut db idx key _)
  exact ⟨same.eviction ▸ guided.1, same.evictPool ▸ guided.2 ▸ steered.pool, count ▸ steered.databases⟩

theorem Steered.purge (inside : idx < store.databases) (key : Bytes) :
    Steered rules held (store.purge idx key) := by
  have count := (purged_purge inside key).silent.databases
  obtain ⟨clock, versions, watched⟩ := touchWatch_eq idx key store
  unfold ShardStore.purge at count ⊢
  rw [watched] at count ⊢
  dsimp only at count ⊢
  split at count
  · exact ⟨governs.remove steered.policy, steered.pool, count ▸ steered.databases⟩
  · exact ⟨steered.policy, steered.pool, steered.databases⟩

theorem Steered.move (move : Move rules store next) : Steered rules held next := by
  have count := move.kept.databases
  cases move with
  | access | expired => exact ⟨steered.policy, steered.pool, count ▸ steered.databases⟩
  | pool candidates named => exact ⟨steered.policy, named, steered.databases⟩
  | victim freq => exact ⟨(governs.victim steered.policy).1, steered.pool, steered.databases⟩
  | forget => exact ⟨governs.remove steered.policy, steered.pool, steered.databases⟩
  | reRegister named =>
    exact ⟨governs.reRegister named steered.policy, steered.pool, steered.databases⟩
  | watch db =>
    obtain ⟨clock, versions, watched⟩ := touchAllWatchesInDb_eq db store
    rw [watched]
    exact ⟨steered.policy, steered.pool, steered.databases⟩
  | put named formed => exact steered.putObject governs named _ _ _
  | remove named key =>
    rw [removeObject_eq]
    exact steered.removeObjectCrediting governs _ _ key _
  | retime named found deadline =>
    exact steered.of_sameRoster (sameRoster_touchWatch.trans
      ((sameRoster_setEntryExpire _ _ _ _).trans (sameRoster_observePut _ _ _ _))) count
  | edit accessed named found same edits before after =>
    exact (steered.setEntry _ _ _).commitEdit governs named _ _ _ _ before after
  | editRemove accessed named found same edits =>
    exact (steered.setEntry _ _ _).removeObjectCrediting governs _ _ _ _
  | redate allowed inside found deadline =>
    exact steered.of_sameRoster (sameRoster_setEntryExpire _ _ _ store) count
  | swap allowed named =>
    rename_i a b
    refine steered.of_sameRoster ?_ count
    by_cases same : store.dbIndex a = store.dbIndex b
    · rw [swapDb_self same]
      exact ⟨rfl, rfl⟩
    obtain ⟨clock, versions, dirty, swapped⟩ := swapDb_tables same
    rw [swapped]
    exact ⟨rfl, rfl⟩
  | purge allowed inside key => exact steered.purge governs inside key

theorem Steered.moves (moves : Moves rules store next) : Steered rules held next := by
  induction moves with
  | refl => exact steered
  | tail _ move ih => exact ih.move governs move

private theorem culls_evictToFitPooled (budget now turns : ℕ) (refilled : Bool) :
    Culls rules store (store.evictToFitPooled budget now turns refilled).2 := by
  induction turns generalizing store refilled with
  | zero => exact .refl store
  | succ turns ih =>
    unfold evictToFitPooled
    split
    · exact .refl store
    have filled : Culls rules store (if store.evictPool.isEmpty = true then
        (store.refillEvictPool now, true) else (store, refilled)).1 := by
      split
      · exact culls_refillEvictPool steered.databases now
      · exact .refl store
    generalize (if store.evictPool.isEmpty = true then
      (store.refillEvictPool now, true) else (store, refilled)) = pool at filled
    dsimp only
    split
    · exact filled
    split
    · exact filled
    rename_i candidate last
    have guided := steered.moves governs filled.moves
    have listed : candidate ∈ pool.1.evictPool := mem_of_getLast? last
    have popped := filled.then (.pool pool.1.evictPool.dropLast fun other member =>
      guided.pool other (mem_of_mem_dropLast member))
    have handled := popped.trans (culls_evictCandidate (steered.moves governs popped.moves)
      (guided.pool candidate listed) pool.2 now)
    exact handled.trans (ih (steered.moves governs handled.moves) _)

private theorem culls_evictToFitRoster (budget now rounds : ℕ) (skipped : OrdSet (ℕ ×ₗ Bytes))
    (present : 0 < store.databases) :
    Culls rules store (store.evictToFitRoster budget now rounds skipped).2 := by
  induction rounds generalizing store skipped with
  | zero => exact .refl store
  | succ rounds ih =>
    unfold evictToFitRoster
    split
    · exact .refl store
    have asked := @culls_selectVictim E _ rules store present
    have answered : ∀ place ∈ store.selectVictim.1, rules.names place.1 :=
      (governs.victim steered.policy).2
    split
    · rename_i chosen
      rw [chosen] at asked
      exact asked
    rename_i db key middle chosen
    rw [chosen] at asked answered
    have named : rules.names db := answered (db, key) rfl
    have again : ∀ {next} skipped, Culls rules store next →
        Culls rules store (next.evictToFitRoster budget now rounds skipped).2 :=
      fun skipped so =>
        so.trans (ih (steered.moves governs so.moves) skipped (so.moves.present present))
    dsimp only
    split
    · rename_i absent
      exact again _ (asked.then (.forget absent))
    rename_i entry found
    split
    · exact again _ (asked.trans (culls_expireIfDue named rfl key now))
    split
    · have registered : Cull rules middle { middle with
          eviction := EvictionPolicy.reRegister db key middle.eviction } :=
        .reRegister named
      have kept := asked.then registered
      split
      · exact kept
      · exact again _ kept
    · exact again _ (asked.then (.remove named found))

theorem culls_evictToFit (present : 0 < store.databases) (turns budget now : ℕ) :
    Culls rules store (store.evictToFit turns budget now).2 := by
  unfold evictToFit
  split
  · exact .refl store
  split
  · exact .refl store
  · exact culls_evictToFitPooled governs steered budget now turns false
  · exact culls_evictToFitRoster governs steered budget now _ ∅ present

omit governs steered

omit [EvictionPolicy E] in
/-- Each place is as it was, access counts apart, or empty. -/
def Thinned (store next : ShardStore E) : Prop :=
  ∀ place, next.contents place = store.contents place ∨ next.contents place = none

theorem Cull.thinned (cull : Cull rules store next) (present : 0 < store.databases) :
    Thinned store next := by
  intro place
  cases cull with
  | access inside found same => exact .inl (by rw [contents_setEntry_of_bare inside found same])
  | expired | pool | victim | forget | reRegister => exact .inl rfl
  | remove named found =>
    rw [contents_removeObject present found, Function.update_apply]
    split
    · exact .inr rfl
    · exact .inl rfl

theorem Culls.thinned (culls : Culls rules store next) (present : 0 < store.databases) :
    Thinned store next := by
  intro place
  induction culls with
  | refl => exact .inl rfl
  | tail culls cull ih =>
    rcases cull.thinned ((Culls.moves culls).present present) place with same | gone
    · exact same ▸ ih
    · exact .inr gone

/-- Whatever the policy, eviction only removes. -/
theorem thinned_evictToFit (present : 0 < store.databases) (turns budget now : ℕ) :
    Thinned store (store.evictToFit turns budget now).2 := by
  -- no name is out of bounds for a policy that is asked for nothing
  have governs : Governs (E := E) ⟨False, fun _ => True, False, False⟩ fun _ => True :=
    ⟨fun _ _ => trivial, fun _ => trivial, fun _ => ⟨trivial, fun _ _ => trivial⟩, fun _ _ => trivial⟩
  exact (culls_evictToFit governs ⟨trivial, fun _ _ => trivial, fun _ _ => trivial⟩ present turns
    budget now).thinned present

/-- The policy that keeps nothing of its own: the store scans its tables. -/
structure S3Fifo where
  volatileOnly : Bool

instance : EvictionPolicy S3Fifo where
  onInsert _ _ _ policy := policy
  onRemove _ _ _ policy := policy
  selectVictim _ policy := (none, [], policy)
  volatileOnly := S3Fifo.volatileOnly
  victimStrategy _ := .tableScanLowestFreq
  reRegister _ _ policy := policy

/-- One of two keys has to go. -/
theorem thinned_evictToFit_s3Fifo :
    let single := (upsert 0 [97] (.bytes [1]) .clear 3 (withHooks 1 (S3Fifo.mk false))).2
    let store := (upsert 0 [98] (.bytes [2]) .clear 3 single).2
    let next := (store.evictToFit 9 3 3).2
    (next.contents (0, [97])).isSome = true ∧ (next.contents (0, [98])).isNone = true ∧
      Thinned store next :=
  ⟨by decide +kernel, by decide +kernel, thinned_evictToFit (by decide +kernel) 9 3 3⟩

end IronCache.Store.ShardStore
