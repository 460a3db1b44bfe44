import IronCache.Store.Accounting
import IronCache.Store.Reading

/-!
# Resident values

No move of the funnel changes the value of a resident untold.
-/

namespace IronCache.Store

open Function

/-- The event as a change of the resident values. -/
def WriteEvent.valued (databases : ℕ) (event : WriteEvent) : Change (ℕ × Bytes) Meaning :=
  (event.change databases).map (·.value.meaning)

namespace ShardStore

section Values

variable {E : Type}

def values (store : ShardStore E) (place : ℕ × Bytes) : Option Meaning :=
  (store.contents place).map (·.value.meaning)

variable {store next left : ShardStore E} {key : Bytes} {right : ShardStore F}

theorem isSome_values : (store.values (idx, key)).isSome = (store.find idx key).isSome := by
  unfold values contents
  rw [Option.isSome_map, Option.isSome_map]

theorem values_update (written : next.contents = update store.contents place image) :
    next.values = update store.values place (image.map (·.value.meaning)) :=
  (congrArg ((Option.map fun entry : Entry => entry.value.meaning) ∘ ·) written).trans (comp_update _ _ _ _)

/-- The events of a step, which account for the resident values. -/
structure Valued (rules : Rules) (store next : ShardStore E) (events : List WriteEvent) : Prop where
  values : next.values = Change.replay store.values (events.map (·.valued store.databases))
  observed : next.observed = store.observed.map (· ++ events)
  databases : next.databases = store.databases
  formed : rules.sound → store.Formed → next.Formed ∧ ∀ event ∈ events, event.Formed

variable {rules : Rules}

theorem Valued.trans (first : Valued rules store middle before) (second : Valued rules middle next after) :
    Valued rules store next (before ++ after) where
  values := by
    rw [second.values, first.values, first.databases, List.map_append, Change.replay_append]
  observed := by
    rw [second.observed, first.observed]
    cases store.observed <;> simp
  databases := second.databases.trans first.databases
  formed := fun ok formed => by
    obtain ⟨halfway, early⟩ := first.formed ok formed
    obtain ⟨whole, late⟩ := second.formed ok halfway
    exact ⟨whole, fun event member =>
      (List.mem_append.mp member).elim (early event) (late event)⟩

theorem Told.valued (told : Told rules store next) : ∃ events, Valued rules store next events := by
  obtain ⟨events, traced, -, images⟩ := told
  refine ⟨events, ?_, traced.observed, traced.databases, fun ok formed => ?_⟩
  · funext place
    exact traced.view (·.value.meaning) place
  · exact ⟨traced.formed formed (images ok formed), images ok formed⟩

/-- A deadline written in place changes no value. -/
private theorem valued_redate (inside : idx < store.databases) (found : store.find idx key = some entry) :
    Valued rules store (store.setEntryExpire idx key deadline) [] := by
  have written := contents_setEntry inside key (entry.setExpireAt deadline)
  rw [← setEntryExpire_of_find found] at written
  have hooks := sameHooks_setTable idx ((store.table idx).insert key (entry.setExpireAt deadline)) store
  have same : store.setEntryExpire idx key deadline = store.setEntry idx key _ :=
    setEntryExpire_of_find found deadline
  refine ⟨?_, ?_, ?_, fun _ formed => ⟨?_, fun _ member => absurd member List.not_mem_nil⟩⟩
  · refine (values_update written).trans (update_eq_self_iff.mpr ?_)
    unfold ShardStore.values contents
    rw [found]
    rfl
  · rw [same]
    change store.observed = _
    cases store.observed <;> simp
  · rw [same]
    exact hooks.databases
  · intro place held stored
    rw [written] at stored
    by_cases here : place = (idx, key)
    · subst here
      rw [update_self] at stored
      cases stored
      have before : entry.Formed key := Formed.find formed found
      exact before
    · rw [update_of_ne here] at stored
      exact formed place held stored

variable {F : Type}

theorem table_mapValues (same : left.values = right.values) (idx : ℕ) :
    (left.table idx).mapValues (·.value.meaning) = (right.table idx).mapValues (·.value.meaning) := by
  apply OrdMap.ext
  intro key
  rw [OrdMap.get?_mapValues, OrdMap.get?_mapValues]
  have here := congrFun same (idx, key)
  unfold values contents at here
  rw [Option.map_map, Option.map_map] at here
  exact here

theorem dbLen_eq (same : left.values = right.values) (count : left.databases = right.databases)
    (db : ℕ) : left.dbLen db = right.dbLen db := by
  have index : left.dbIndex db = right.dbIndex db := by
    unfold dbIndex
    rw [show left.dbs.length = right.dbs.length from count]
  have tables := congrArg (·.toList.length) (table_mapValues same (left.dbIndex db))
  unfold dbLen
  rw [index] at tables ⊢
  simpa [OrdMap.mapValues] using tables

/-- The weight of a table as its well-formed entries mean it. -/
private theorem tableWeight_eq (formed : store.Formed) : tableWeight (store.table idx) =
      (((store.table idx).mapValues (·.value.meaning)).toList.map fun binding =>
        binding.1.length + binding.2.logicalLen).sum := by
  unfold tableWeight OrdMap.mapValues
  rw [List.map_map]
  refine congrArg List.sum (List.map_congr_left fun binding listed => ?_)
  obtain ⟨key, entry⟩ := binding
  have held : entry.Formed key := Formed.find formed (OrdMap.mem_toList.mp listed)
  unfold Entry.accountedBytes
  rw [held.1, Value.logicalLen_eq held.2]
  rfl

theorem weight_eq (leftFormed : left.Formed) (rightFormed : right.Formed)
    (same : left.values = right.values) (count : left.databases = right.databases) :
    left.weight = right.weight := by
  have spread : ∀ {G : Type} (store : ShardStore G), store.dbs.map tableWeight =
        (List.range store.databases).map fun idx => tableWeight (store.table idx) := by
    intro G store
    apply List.ext_getElem
    · simp [databases]
    · intro idx inside _
      have bound : idx < store.dbs.length := by simpa using inside
      simp [table, List.getD_eq_getElem?_getD, List.getElem?_eq_getElem bound]
  unfold weight
  rw [spread left, spread right, count]
  refine congrArg List.sum (List.map_congr_left fun idx _ => ?_)
  rw [tableWeight_eq leftFormed, tableWeight_eq rightFormed, table_mapValues same]

end Values

variable {E : Type} [EvictionPolicy E] {rules : Rules}

theorem Moves.valued {store next : ShardStore E} (funnelled : ¬rules.direct)
    (present : 0 < store.databases) (moves : Moves rules store next) :
    ∃ events, Valued rules store next events := by
  induction moves with
  | refl => exact Told.valued (.refl store)
  | tail before move ih =>
    obtain ⟨events, first⟩ := ih
    have stands := Moves.present before present
    rcases move.told_or_redates funnelled stands with
      told | ⟨-, idx, key, entry, deadline, inside, found, rfl⟩
    · obtain ⟨more, second⟩ := told.valued
      exact ⟨_, first.trans second⟩
    · exact ⟨_, first.trans (valued_redate inside found)⟩

end ShardStore

namespace Op

variable {E : Type} [EvictionPolicy E]

/-- The rules of a run that goes through the funnel, with closures that may write deadlines in
place. -/
def funnel : Rules := ⟨True, fun _ => True, False, True⟩

structure Regular (op : Op) : Prop where
  honest : op.Honest
  formed : op.WellFormed
  funnelled : op.Funnelled

variable {store : ShardStore E}

theorem Regular.moves {op : Op} (regular : op.Regular) (present : 0 < store.databases) :
    ShardStore.Moves funnel store (op.step store) :=
  Obeys.moves (ShardStore.governs_of_names fun _ => trivial) present
    ⟨regular.honest, fun _ => regular.formed, names_of_any (fun _ => trivial),
      fun _ => regular.funnelled, fun strict => absurd trivial strict⟩

theorem moves_run (present : 0 < store.databases) {ops : List Op} (regular : ∀ op ∈ ops, op.Regular) :
    ShardStore.Moves funnel store (run store ops) := by
  induction ops generalizing store with
  | nil => exact .refl store
  | cons op ops ih =>
    have first := (regular op List.mem_cons_self).moves present
    exact first.trans (ih (first.present present) fun other member =>
      regular other (List.mem_cons_of_mem _ member))

end Op

end IronCache.Store
