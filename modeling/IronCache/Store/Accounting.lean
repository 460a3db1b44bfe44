import IronCache.Store.Machine

/-!
# The accounts

`used_memory` is the weight of what is resident: every move changes both by the same amount.
-/

namespace IronCache.Store.ShardStore

section Weight

variable {E : Type}

def tableWeight (table : OrdMap Bytes Entry) : ℕ :=
  (table.toList.map fun binding => binding.2.accountedBytes).sum

def weight (store : ShardStore E) : ℕ := (store.dbs.map tableWeight).sum

def held (store : ShardStore E) (idx : ℕ) (key : Bytes) : ℕ :=
  (store.find idx key).elim 0 Entry.accountedBytes

variable {idx : ℕ} {store next : ShardStore E} {key : Bytes} {entry old : Entry}

private theorem sum_map_set {tables : List (OrdMap Bytes Entry)} (inside : idx < tables.length)
    (table : OrdMap Bytes Entry) :
    ((tables.set idx table).map tableWeight).sum + tableWeight (tables.getD idx ∅) =
      (tables.map tableWeight).sum + tableWeight table := by
  induction tables generalizing idx with
  | nil => cases inside
  | cons first tables ih =>
    cases idx with
    | zero =>
      simp only [List.set_cons_zero, List.map_cons, List.sum_cons, List.getD_cons_zero]
      omega
    | succ idx =>
      have rest := ih (Nat.lt_of_succ_lt_succ inside)
      simp only [List.set_cons_succ, List.map_cons, List.sum_cons, List.getD_cons_succ]
      omega

theorem held_of_find (found : store.find idx key = some entry) :
    store.held idx key = entry.accountedBytes := by
  unfold held
  rw [found]
  rfl

theorem accountedBytes_of_bare (same : entry.bare = old.bare) :
    entry.accountedBytes = old.accountedBytes := by
  have weighed : entry.bare.accountedBytes = old.bare.accountedBytes := by rw [same]
  exact weighed

/-- What is charged is what is resident. -/
def Accounted (store : ShardStore E) : Prop := store.used = store.weight

/-- The hooks beside the accounts. -/
structure SameAccounts (store next : ShardStore E) : Prop where
  used : next.used = store.used
  weight : next.weight = store.weight

theorem SameAccounts.trans (first : SameAccounts store middle) (second : SameAccounts middle next) :
    SameAccounts store next :=
  ⟨second.used.trans first.used, second.weight.trans first.weight⟩

theorem Accounted.of_same (accounted : store.Accounted) (same : SameAccounts store next) :
    next.Accounted :=
  same.used.trans (accounted.trans same.weight.symm)

theorem sameAccounts_observePut : SameAccounts store (store.observePut db idx key) := by
  unfold observePut
  dsimp only
  split <;> exact ⟨rfl, rfl⟩

theorem sameAccounts_touchWatch : SameAccounts store (store.touchWatch db key) := by
  obtain ⟨clock, versions, watched⟩ := touchWatch_eq db key store
  rw [watched]
  exact ⟨rfl, rfl⟩

variable (inside : idx < store.databases)
include inside

theorem weight_setEntry (key : Bytes) (entry : Entry) :
    (store.setEntry idx key entry).weight + store.held idx key =
      store.weight + entry.accountedBytes := by
  have moved := sum_map_set inside ((store.table idx).insert key entry)
  have inserted := (store.table idx).sum_insert key entry fun binding => binding.2.accountedBytes
  have split := (store.table idx).sum_erase key fun binding => binding.2.accountedBytes
  change (store.setEntry idx key entry).weight + tableWeight (store.table idx) =
    store.weight + tableWeight ((store.table idx).insert key entry) at moved
  change tableWeight ((store.table idx).insert key entry) = _ at inserted
  change tableWeight (store.table idx) = _ + store.held idx key at split
  dsimp only at inserted
  omega

theorem weight_eraseEntry (key : Bytes) :
    (store.eraseEntry idx key).weight + store.held idx key = store.weight := by
  have moved := sum_map_set inside ((store.table idx).erase key)
  have split := (store.table idx).sum_erase key fun binding => binding.2.accountedBytes
  change (store.eraseEntry idx key).weight + tableWeight (store.table idx) =
    store.weight + tableWeight ((store.table idx).erase key) at moved
  change tableWeight (store.table idx) =
    tableWeight ((store.table idx).erase key) + store.held idx key at split
  omega

theorem weight_setEntry_of_eq (found : store.find idx key = some old)
    (same : entry.accountedBytes = old.accountedBytes) :
    (store.setEntry idx key entry).weight = store.weight := by
  have moved := weight_setEntry inside key entry
  rw [held_of_find found, same] at moved
  omega

theorem sameAccounts_setEntryExpire (key : Bytes) (deadline : Option ℕ) :
    SameAccounts store (store.setEntryExpire idx key deadline) := by
  unfold setEntryExpire
  split
  · rename_i entry found
    exact ⟨rfl, weight_setEntry_of_eq inside found rfl⟩
  · exact ⟨rfl, rfl⟩

end Weight

section Moves

variable {E : Type} [EvictionHook E]

variable {store : ShardStore E} {idx : ℕ} {key : Bytes} {rules : Rules} {next : ShardStore F}

section

variable (inside : idx < store.databases) (accounted : store.Accounted)
include inside

/-- A removal that credits another weight than the entry has makes good for the difference. -/
theorem accounted_removeObjectCrediting (db : ℕ) (found : store.find idx key = some entry)
    (charged : store.used + entry.accountedBytes = store.weight + bytes) :
    (store.removeObjectCrediting db idx key bytes).2.Accounted := by
  rw [removeObjectCrediting_of_find found]
  have erased := weight_eraseEntry inside key
  rw [held_of_find found] at erased
  change store.used - bytes = (store.eraseEntry idx key).weight
  omega

private theorem accounted_commitEdit (db : ℕ) (found : store.find idx key = some edited)
    (before after : Option ℕ)
    (charged : store.used + edited.accountedBytes = store.weight + oldBytes)
    (enough : oldBytes ≤ store.used) :
    (store.commitEdit db idx key oldBytes edited before after).Accounted := by
  unfold commitEdit
  split
  · exact accounted_removeObjectCrediting inside db found charged
  obtain ⟨clock, versions, watched⟩ := touchWatch_eq db key store
  rw [watched]
  refine Accounted.of_same ?_ sameAccounts_observePut
  generalize weighed : (if edited.accountedBytes = oldBytes then _ else _) = middle
  have settled : middle.Accounted ∧ middle.databases = store.databases := by
    subst weighed
    split
    · refine ⟨?_, rfl⟩
      change store.used = store.weight
      omega
    refine ⟨?_, rfl⟩
    change store.used - oldBytes + edited.accountedBytes = store.weight
    omega
  split
  · exact settled.1
  · exact settled.1.of_same (sameAccounts_setEntryExpire (settled.2 ▸ inside) key after)

include accounted

theorem Accounted.putObject (db : ℕ) (key : Bytes) (entry : Entry) :
    (store.putObject db idx key entry).2.Accounted := by
  obtain ⟨clock, versions, watched⟩ := touchWatch_eq db key store
  unfold ShardStore.putObject
  rw [watched]
  dsimp only
  unfold Accounted at accounted
  split
  · rename_i old stored
    have found : store.find idx key = some old := stored
    refine Accounted.of_same ?_ sameAccounts_observePut
    have moved := weight_setEntry inside key (entry.setFreq old.freq)
    rw [held_of_find found] at moved
    have below := weight_eraseEntry inside key
    rw [held_of_find found] at below
    change store.used - old.accountedBytes + entry.accountedBytes =
      (store.setEntry idx key (entry.setFreq old.freq)).weight
    change _ + old.accountedBytes = store.weight + entry.accountedBytes at moved
    omega
  · rename_i absent
    refine Accounted.of_same ?_ sameAccounts_observePut
    have moved := weight_setEntry inside key entry
    have nothing : store.held idx key = 0 := by
      unfold held
      rw [show store.find idx key = none from absent]
      rfl
    change store.used + entry.accountedBytes = (store.setEntry idx key entry).weight
    omega

theorem Accounted.removeObject (db : ℕ) (key : Bytes) : (store.removeObject db idx key).2.Accounted := by
  rw [removeObject_eq]
  cases found : store.find idx key with
  | some entry => exact accounted_removeObjectCrediting inside db found (congrArg (· + _) accounted)
  | none =>
    rw [removeObjectCrediting_of_absent found]
    exact accounted.of_same sameAccounts_touchWatch

theorem Accounted.purge (key : Bytes) : (store.purge idx key).Accounted := by
  obtain ⟨clock, versions, watched⟩ := touchWatch_eq idx key store
  unfold ShardStore.purge
  rw [watched]
  dsimp only
  split
  · rename_i entry stored
    have found : store.find idx key = some entry := stored
    have erased := weight_eraseEntry inside key
    rw [held_of_find found] at erased
    unfold Accounted at accounted
    change store.used - entry.accountedBytes = (store.eraseEntry idx key).weight
    omega
  · exact accounted

end

omit [EvictionHook E] in
private theorem sameAccounts_swapDb (present : 0 < store.databases) :
    SameAccounts store (store.swapDb a b) := by
  by_cases same : store.dbIndex a = store.dbIndex b
  · rw [swapDb_self same]
    exact ⟨rfl, rfl⟩
  obtain ⟨clock, versions, dirty, swapped⟩ := swapDb_tables same
  rw [swapped]
  refine ⟨rfl, ?_⟩
  have first := sum_map_set (dbIndex_lt present a) (store.table (store.dbIndex b))
  have second := @sum_map_set (store.dbIndex b)
    (store.dbs.set (store.dbIndex a) (store.table (store.dbIndex b))) (by rw [List.length_set]; exact dbIndex_lt present b)
    (store.table (store.dbIndex a))
  have untouched : (store.dbs.set (store.dbIndex a) (store.table (store.dbIndex b))).getD
      (store.dbIndex b) ∅ = store.table (store.dbIndex b) := by
    unfold table
    rw [List.getD_eq_getElem?_getD, List.getElem?_set_ne same, ← List.getD_eq_getElem?_getD]
  rw [untouched] at second
  change (((store.dbs.set _ _).set _ _).map tableWeight).sum = (store.dbs.map tableWeight).sum
  change _ + tableWeight (store.table (store.dbIndex a)) = _ at first
  omega

theorem Move.accounted [EvictionPolicy F] {store : ShardStore F} (present : 0 < store.databases)
    (move : Move rules store next) (accounted : store.Accounted) : next.Accounted := by
  have weighed : store.used = store.weight := accounted
  cases move with
  | access inside found same =>
    exact accounted.of_same ⟨rfl, weight_setEntry_of_eq inside found (accountedBytes_of_bare same)⟩
  | expired | pool | victim | forget | reRegister => exact accounted
  | watch db =>
    obtain ⟨clock, versions, watched⟩ := touchAllWatchesInDb_eq db store
    rw [watched]
    exact accounted
  | put named formed => exact accounted.putObject (dbIndex_lt present _) _ _ _
  | remove named key => exact accounted.removeObject (dbIndex_lt present _) _ key
  | retime named found deadline =>
    rename_i db entry key
    have inside : store.dbIndex db < (store.touchWatch db key).databases := by
      rw [(kept_touchWatch db key store).databases]
      exact dbIndex_lt present db
    exact accounted.of_same (sameAccounts_touchWatch.trans
      ((sameAccounts_setEntryExpire inside key deadline).trans sameAccounts_observePut))
  | edit accessed named found same edits before after =>
    rename_i db old key
    have inside := dbIndex_lt present db
    have moved := weight_setEntry inside key (accessed.editAll edits)
    have below := weight_eraseEntry inside key
    rw [held_of_find found, ← accountedBytes_of_bare same] at moved below
    refine accounted_commitEdit ?_ db (find_setEntry_self inside key _) before after ?_ ?_
    · rw [(kept_setEntry _ _ _ store).databases]
      exact inside
    · change store.used + _ = _
      omega
    · change _ ≤ store.used
      omega
  | editRemove accessed named found same edits =>
    rename_i db old key
    have inside := dbIndex_lt present db
    have moved := weight_setEntry inside key (accessed.editAll edits)
    rw [held_of_find found, ← accountedBytes_of_bare same] at moved
    refine accounted_removeObjectCrediting ?_ db (find_setEntry_self inside key _) ?_
    · rw [(kept_setEntry _ _ _ store).databases]
      exact inside
    · change store.used + _ = _
      omega
  | redate allowed inside found deadline =>
    exact accounted.of_same (sameAccounts_setEntryExpire inside _ deadline)
  | swap allowed named => exact accounted.of_same (sameAccounts_swapDb present)
  | purge allowed inside key => exact accounted.purge inside key

theorem Moves.accounted [EvictionPolicy F] {store : ShardStore F} (present : 0 < store.databases)
    (moves : Moves rules store next) (accounted : store.Accounted) : next.Accounted := by
  induction moves with
  | refl => exact accounted
  | tail before move ih => exact move.accounted (Moves.present before present) ih

end Moves

section Credits

variable {E : Type} [EvictionHook E]

/-- What a step of the store credits, wherever one subtracts from the account: the entry that is
replaced or removed, or an edited one at the weight it had before the edit. -/
inductive Credits : ShardStore E → ShardStore E → ℕ → Prop
  | replaced (inside : idx < store.databases) (found : store.find idx key = some old) :
      Credits store (store.putObject db idx key entry).2 old.accountedBytes
  | removed (inside : idx < store.databases) (found : store.find idx key = some old) :
      Credits store (store.removeObject db idx key).2 old.accountedBytes
  | edited (accessed : Entry) (inside : idx < store.databases)
      (found : store.find idx key = some old) (same : accessed.bare = old.bare) :
      Credits store ((store.setEntry idx key entry).commitEdit db idx key accessed.accountedBytes
        entry before after) accessed.accountedBytes
  | editedAway (accessed : Entry) (inside : idx < store.databases)
      (found : store.find idx key = some old) (same : accessed.bare = old.bare) :
      Credits store ((store.setEntry idx key entry).removeObjectCrediting db idx key
        accessed.accountedBytes).2 accessed.accountedBytes
  | purged (inside : idx < store.databases) (found : store.find idx key = some old) :
      Credits store (store.purge idx key) old.accountedBytes

variable {store : ShardStore E}

omit [EvictionHook E] in
private theorem accountedBytes_le_weight (inside : idx < store.databases)
    (found : store.find idx key = some entry) : entry.accountedBytes ≤ store.weight := by
  have erased := weight_eraseEntry inside key
  rw [held_of_find found] at erased
  omega

/-- No credit is more than what is charged, so no subtraction is cut off at zero. -/
theorem Credits.le_used (credits : Credits store next bytes) (accounted : store.Accounted) :
    bytes ≤ store.used := by
  rw [show store.used = store.weight from accounted]
  cases credits with
  | replaced inside found | removed inside found | purged inside found =>
    exact accountedBytes_le_weight inside found
  | edited accessed inside found same | editedAway accessed inside found same =>
    rw [accountedBytes_of_bare same]
    exact accountedBytes_le_weight inside found

end Credits

section Runs

variable {E : Type} [EvictionPolicy E]

/-- The order in which a new policy hears of the resident keys. -/
def seedLe (left right : ℕ × Bytes × Entry) : Bool :=
  left.1 < right.1 || left.1 == right.1 && (scanHash left.2.1 < scanHash right.2.1 ||
      scanHash left.2.1 == scanHash right.2.1 && left.2.1 ≤ right.2.1)

/-- A new policy, where its name is known, hears of every resident key that is not due. -/
def setPolicyByName (policy : Option E) (now : ℕ) (store : ShardStore E) : Bool × ShardStore E :=
  match policy with
  | none => (false, store)
  | some policy =>
    let seeds := (store.residents.filter fun seed => !seed.2.2.isExpired now).mergeSort seedLe
    (true, seeds.foldl (fun store seed => store.policyInsert seed.1 seed.2.1 seed.2.2.accountedBytes)
      { store with eviction := policy })

/-- A call of the store, or a change of its policy. -/
inductive Call (E : Type) where
  | op (op : Op)
  | setPolicyByName (policy : Option E) (now : ℕ)

namespace Call

def step (store : ShardStore E) : Call E → ShardStore E
  | .op call => call.step store
  | .setPolicyByName policy now => (store.setPolicyByName policy now).2

def run (store : ShardStore E) (calls : List (Call E)) : ShardStore E := calls.foldl step store

def Honest : Call E → Prop
  | .op call => call.Honest
  | .setPolicyByName _ _ => True

end Call

def anything : Rules := ⟨False, fun _ => True, True, True⟩

/-- A step that changes nothing but the policy, or a move. -/
def Step (store next : ShardStore E) : Prop :=
  Move anything store next ∨ ∃ eviction, next = { store with eviction }

/-- A step whose credits are all charged. -/
def Covered (store next : ShardStore E) : Prop :=
  Step store next ∧ ∀ bytes, Credits store next bytes → bytes ≤ store.used

variable {store next : ShardStore E}

theorem Step.databases (step : Step store next) : next.databases = store.databases := by
  rcases step with move | ⟨eviction, rfl⟩
  · exact move.kept.databases
  · rfl

theorem Step.accounted (present : 0 < store.databases) (step : Step store next)
    (accounted : store.Accounted) : next.Accounted := by
  rcases step with move | ⟨eviction, rfl⟩
  · exact move.accounted present accounted
  · exact accounted

private theorem setPolicyByName_eq :
    ∃ eviction, (store.setPolicyByName policy now).2 = { store with eviction } := by
  cases policy with
  | none => exact ⟨store.eviction, rfl⟩
  | some policy =>
    unfold setPolicyByName
    generalize List.mergeSort _ _ = seeds
    induction seeds generalizing policy with
    | nil => exact ⟨policy, rfl⟩
    | cons seed seeds ih => exact ih _

theorem Call.steps (present : 0 < store.databases) {call : Call E} (honest : call.Honest) :
    Relation.ReflTransGen Step store (call.step store) := by
  cases call with
  | setPolicyByName policy now => exact .single (.inr setPolicyByName_eq)
  | op call =>
    have obeys : call.Obeys anything (fun _ => True) store :=
      ⟨honest, False.elim, Op.names_of_any (fun _ => trivial),
        fun forbidden => absurd trivial forbidden, fun forbidden => absurd trivial forbidden⟩
    have moves : Relation.ReflTransGen (Move anything) store (call.step store) :=
      obeys.moves (governs_of_names fun _ => trivial) present
    have step : Move anything ≤ Step (E := E) := fun _ _ move => Or.inl move
    exact Relation.ReflTransGen.mono step _ _ moves

/-- Steps from an exact account are covered, and leave it exact. -/
private theorem covered_of_steps (present : 0 < store.databases) (accounted : store.Accounted)
    (steps : Relation.ReflTransGen Step store next) :
    next.Accounted ∧ 0 < next.databases ∧ Relation.ReflTransGen Covered store next := by
  induction steps with
  | refl => exact ⟨accounted, present, .refl⟩
  | tail _ step ih =>
    obtain ⟨exact', present', covered⟩ := ih
    exact ⟨step.accounted present' exact', step.databases ▸ present',
      covered.tail ⟨step, fun bytes credits => credits.le_used exact'⟩⟩

/-- The account of a store is exact after every call, and no credit is ever cut off. -/
theorem used_eq_weight_run {store : ShardStore E} (present : 0 < store.databases)
    (accounted : store.used = store.weight) {calls : List (Call E)} (honest : ∀ call ∈ calls, call.Honest) :
    (Call.run store calls).usedMemory = (Call.run store calls).weight ∧
      Relation.ReflTransGen Covered store (Call.run store calls) := by
  have run : (Call.run store calls).Accounted ∧ 0 < (Call.run store calls).databases ∧
      Relation.ReflTransGen Covered store (Call.run store calls) := by
    induction calls generalizing store with
    | nil => exact ⟨accounted, present, .refl⟩
    | cons call calls ih =>
      obtain ⟨accounted', present', covered⟩ :=
        covered_of_steps present accounted (Call.steps present (honest call (by simp)))
      obtain ⟨last, there, rest⟩ := ih present' accounted' fun other member => honest other (by simp [member])
      exact ⟨last, there, covered.trans rest⟩
  exact ⟨run.1, run.2.2⟩

/-- A list is grown in place and drained, a key is copied and overwritten, another expires, and the
policy changes in between. -/
def accountedCalls : List (Call NullEviction) :=
  [.op (.upsert 0 [97] (.bytes [1, 2]) (.set 9) 3),
    .op (.rmwMut 0 [98] 3 fun _ => ([], ⟨.insert (.list [[1], [2]]), .keep, ()⟩)),
    .setPolicyByName (some {}) 4,
    .op (.rmwMut 0 [98] 4 fun _ => ([.list (.pushBack [7, 7] .defaults)], ⟨.mutated, .keep, ()⟩)),
    .op (.moveObject 0 [98] 1 [99] .copy false 5), .op (.swapDb 0 1), .op (.read 0 [97] 20)]

theorem used_eq_weight_accountedCalls : (Call.run (withHooks 2 {}) accountedCalls).usedMemory =
      (Call.run (withHooks 2 {}) accountedCalls).weight ∧
      Relation.ReflTransGen Covered (withHooks 2 {}) (Call.run (withHooks 2 {}) accountedCalls) :=
  used_eq_weight_run (by decide) rfl (by simp [accountedCalls, Call.Honest, Op.Honest])

end Runs

end IronCache.Store.ShardStore
