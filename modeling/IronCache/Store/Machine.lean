import IronCache.Store.Observed

/-!
# The store as a machine

The operations as one type, runs of them, and the account that the write observer gives of a run.
-/

namespace IronCache.Store

open ShardStore

/-- The closure of `HSETEX`: expired fields are reaped before the condition on the fields is
checked, and a condition that fails is answered `Keep`. -/
def cmdHsetex (fnx fxx keepTtl : Bool) (deadline : Option ℤ) (pairs : List (Bytes × Bytes))
    (now : ℕ) : Option OccupiedEntryMut → List CollEdit × RmwStep Unit
  | none =>
    if fxx then ([], ⟨.keep, .unchanged, ()⟩)
    else
      match deadline with
      | some instant =>
        if instant ≤ now then ([], ⟨.keep, .unchanged, ()⟩)
        else
          ([], ⟨.insert (.hashEx pairs (pairs.map fun pair => (pair.1, instant.toNat))), .clear, ()⟩)
      | none => ([], ⟨.insert (.hash pairs), .clear, ()⟩)
  | some entry =>
    match entry.value with
    | some (.hash hash) =>
      let reaped := (hash.reapExpiredFields now).2
      if fnx && pairs.any (reaped.contains ·.1) || fxx && !pairs.all (reaped.contains ·.1) then
        ([.hash (.reapExpiredFields now)], ⟨.keep, .unchanged, ()⟩)
      else
        let edits := HashEdit.reapExpiredFields now :: pairs.flatMap fun (field, value) =>
          .set field value entry.thresholds ::
            match deadline with
            | some instant =>
              if instant ≤ now then [.del field] else [.setFieldTtl field instant.toNat]
            | none => if keepTtl then [] else [.persistField field]
        (edits.map .hash,
          ⟨if (edits.foldl HashVal.edit hash).len = 0 then .delete else .mutated, .unchanged, ()⟩)
    | _ => ([], ⟨.keep, .unchanged, ()⟩)

/-- A call of the store. A call of `evict_to_fit` is cut off after some turns of its loop. -/
inductive Op where
  | read (db : ℕ) (key : Bytes) (now : ℕ)
  | contains (db : ℕ) (key : Bytes) (now : ℕ)
  | upsert (db : ℕ) (key : Bytes) (value : NewValue) (expire : ExpireWrite) (now : ℕ)
  | delete (db : ℕ) (key : Bytes) (now : ℕ)
  | rmw (db : ℕ) (key : Bytes) (now : ℕ) (f : Option OccupiedEntry → RmwStep Unit)
  | rmwMut (db : ℕ) (key : Bytes) (now : ℕ) (f : Option OccupiedEntryMut → List CollEdit × RmwStep Unit)
  | insertObject (db : ℕ) (object : KvObj)
  | moveObject (srcDb : ℕ) (src : Bytes) (dstDb : ℕ) (dst : Bytes) (mode : MoveMode)
      (replace : Bool) (now : ℕ)
  | reapIfExpired (db : ℕ) (key : Bytes) (now : ℕ)
  | flushDb (db : ℕ)
  | flushAll
  | swapDb (a b : ℕ)
  | removeKeysWhere (pred : Bytes → Bool)
  | evictToFit (turns budget now : ℕ)

namespace Op

variable {E : Type} [EvictionPolicy E]

def step (store : ShardStore E) : Op → ShardStore E
  | .read db key now => (store.read db key now).2
  | .contains db key now => (store.contains db key now).2
  | .upsert db key value expire now => (store.upsert db key value expire now).2
  | .delete db key now => (store.delete db key now).2
  | .rmw db key now f => (store.rmw db key now f).2
  | .rmwMut db key now f => (store.rmwMut db key now f).2
  | .insertObject db object => store.insertObject db object
  | .moveObject srcDb src dstDb dst mode replace now =>
    (store.moveObject srcDb src dstDb dst mode replace now).2
  | .reapIfExpired db key now => (store.reapIfExpired db key now).2
  | .flushDb db => store.flushDb db
  | .flushAll => store.flushAll
  | .swapDb a b => store.swapDb a b
  | .removeKeysWhere pred => store.removeKeysWhere pred
  | .evictToFit turns budget now => (store.evictToFit turns budget now).2

def run (store : ShardStore E) (ops : List Op) : ShardStore E := ops.foldl step store

def Throughout (property : ShardStore E → Op → Prop) : ShardStore E → List Op → Prop
  | _, [] => True
  | store, op :: ops => property store op ∧ Throughout property (op.step store) ops

/-- A closure that edited a value in place says so, which the one of `HSETEX` may not. -/
def Honest : Op → Prop
  | .rmwMut _ _ _ f => ∀ view, (f view).1 ≠ [] → (f view).2.action = .mutated ∨ (f view).2.action = .delete
  | _ => True

/-- Integers are machine integers, and an inserted object is one that an entry is shipped as. -/
def WellFormed : Op → Prop
  | .upsert _ _ value _ _ => ∀ number, value = .int number → InI64 number
  | .rmw _ _ _ f => ∀ view number, (f view).action = .insert (.int number) ∨
      (f view).action = .replace (.int number) → InI64 number
  | .rmwMut _ _ _ f => ∀ view number, (f view).2.action = .insert (.int number) ∨
      (f view).2.action = .replace (.int number) → InI64 number
  | .insertObject _ object => (Entry.fromKvobj object).value.Sound
  | _ => True

/-- A closure of `rmw` that answers `Mutated` on a live entry leaves its deadline. -/
def LeavesDeadline (store : ShardStore E) : Op → Prop
  | .rmw db key now f => ∀ entry, store.find (store.dbIndex db) key = some entry →
      entry.isExpired now = false → (f (some entry.occupied)).action = .mutated →
        resolveExpire (f (some entry.occupied)).expire entry.expireAt = entry.expireAt
  | _ => True

/-- What past the funnel happens changes nothing: databases that are swapped hold the same, and
a purge finds no key. -/
def KeepsTables (store : ShardStore E) : Op → Prop
  | .swapDb a b => ∀ key, store.contents (store.dbIndex a, key) = store.contents (store.dbIndex b, key)
  | .removeKeysWhere pred => ∀ place, (store.contents place).isSome → pred place.2 = false
  | _ => True

/-- The call changes the contents only in ways the observer hears of. -/
def Observable (store : ShardStore E) (op : Op) : Prop :=
  op.LeavesDeadline store ∧ op.KeepsTables store

/-- Whether the call goes through the funnel. -/
def Funnelled : Op → Prop
  | .swapDb _ _ | .removeKeysWhere _ => False
  | _ => True

/-- The databases that the call names may be named, and eviction keeps to such databases. -/
def Names (rules : Rules) (held : E → Prop) (store : ShardStore E) : Op → Prop
  | .read db _ _ | .contains db _ _ | .upsert db _ _ _ _ | .delete db _ _ | .rmw db _ _ _
  | .rmwMut db _ _ _ | .insertObject db _ | .reapIfExpired db _ _ | .flushDb db => rules.names db
  | .moveObject srcDb _ dstDb _ _ _ _ => rules.names srcDb ∧ rules.names dstDb
  | .swapDb a b => rules.names a ∧ rules.names b
  | .flushAll => ∀ db < store.databases, rules.names db
  | .removeKeysWhere _ => True
  | .evictToFit _ _ _ => Steered rules held store

/-- The call keeps to the rules. -/
structure Obeys (rules : Rules) (held : E → Prop) (store : ShardStore E) (op : Op) : Prop where
  honest : op.Honest
  sound : rules.sound → op.WellFormed
  names : op.Names rules held store
  funnelled : ¬rules.direct → op.Funnelled
  leaves : ¬rules.redates → op.LeavesDeadline store

variable {store : ShardStore E} {op : Op}

theorem Obeys.moves {held : E → Prop} (governs : Governs rules held)
    (present : 0 < store.databases) (obeys : op.Obeys rules held store) :
    Moves rules store (op.step store) := by
  obtain ⟨honest, sound, names, funnelled, leaves⟩ := obeys
  cases op with
  | read db key now => exact moves_read present names key now
  | contains db key now => exact moves_expireIfDue names _ key now
  | upsert db key value expire now => exact moves_upsert names key expire now sound
  | delete db key now => exact moves_delete names key now
  | rmw db key now f => exact moves_rmw present names key now sound leaves
  | rmwMut db key now f => exact moves_rmwMut present names key now sound honest
  | insertObject db object => exact moves_insertObject names sound
  | moveObject srcDb src dstDb dst mode replace now =>
    exact moves_moveObject names.1 names.2 src dst mode replace now
  | reapIfExpired db key now => exact moves_reapIfExpired names key now
  | flushDb db => exact moves_flushDb names
  | flushAll =>
    exact .foldl _ fun _ _ db member => moves_flushDb (names db (List.mem_range.mp member))
  | swapDb a b =>
    exact (Move.swap (not_imp_comm.mp funnelled fun past => past) names).moves
  | removeKeysWhere pred =>
    exact moves_removeKeysWhere (not_imp_comm.mp funnelled fun past => past) pred
  | evictToFit turns budget now =>
    exact (culls_evictToFit governs names present turns budget now).moves

omit [EvictionPolicy E] in
theorem names_of_any (any : ∀ db, rules.names db) : op.Names rules (fun _ => True) store := by
  cases op with
  | moveObject | swapDb => exact ⟨any _, any _⟩
  | flushAll => exact fun db _ => any db
  | removeKeysWhere => trivial
  | evictToFit => exact ⟨trivial, fun candidate _ => any candidate.db, fun db _ => any db⟩
  | _ => exact any _

/-- The rules of a run that the observer can follow. -/
def told (sound : Prop) : Rules := ⟨sound, fun _ => True, False, False⟩

private theorem told_of_funnelled {sound : Prop} (present : 0 < store.databases) (funnelled : op.Funnelled)
    (honest : op.Honest) (leaves : op.LeavesDeadline store) (formed : sound → op.WellFormed) :
    Told (told sound) store (op.step store) := by
  have obeys : op.Obeys (told sound) (fun _ => True) store :=
    ⟨honest, formed, names_of_any (fun _ => trivial), fun _ => funnelled, fun _ => leaves⟩
  have moves := obeys.moves (governs_of_names fun _ => trivial) present
  exact moves.told not_false not_false present

/-- The events give the contents of the next state from those of the first. -/
structure Reported (store next : ShardStore E) (events : List WriteEvent) : Prop where
  contents : next.contents = store.replayEvents events
  observed : next.observed = store.observed.map (· ++ events)
  databases : next.databases = store.databases

omit [EvictionPolicy E] in
theorem Reported.trans (first : Reported store middle before) (second : Reported middle next after) :
    Reported store next (before ++ after) where
  contents := by
    rw [second.contents]
    unfold replayEvents
    rw [first.contents, first.databases, List.map_append, Change.replay_append]
    rfl
  observed := by
    rw [second.observed, first.observed]
    cases store.observed <;> simp
  databases := second.databases.trans first.databases

omit [EvictionPolicy E] in
theorem Reported.of_silent (silent : Silent store next)
    (same : next.contents = store.contents) : Reported store next [] where
  contents := same
  observed := by
    rw [silent.observed]
    cases store.observed <;> simp
  databases := silent.databases

section

variable (present : 0 < store.databases)
include present

/-- A call past the funnel that keeps the tables is silent and changes nothing. -/
private theorem silent_of_keepsTables (past : ¬op.Funnelled) (keeps : op.KeepsTables store) :
    Silent store (op.step store) ∧ (op.step store).contents = store.contents := by
  cases op with
  | swapDb a b =>
    refine ⟨silent_swapDb, funext fun place => ?_⟩
    have alike : ∀ key, store.contents (store.dbIndex a, key) = store.contents (store.dbIndex b, key) := keeps
    change (store.swapDb a b).contents place = store.contents place
    rw [contents_swapDb present]
    obtain ⟨db, key⟩ := place
    rcases eq_or_ne db (store.dbIndex a) with rfl | first
    · rw [Equiv.swap_apply_left, alike]
    rcases eq_or_ne db (store.dbIndex b) with rfl | second
    · rw [Equiv.swap_apply_right, alike]
    · rw [Equiv.swap_apply_of_ne_of_ne first second]
  | removeKeysWhere pred =>
    have purged := purged_removeKeysWhere pred store
    refine ⟨purged.silent, funext fun place => ?_⟩
    have spared : ∀ place, (store.contents place).isSome → pred place.2 = false := keeps
    by_cases chosen : pred place.2 = true
    · have absent : ¬(store.contents place).isSome := fun there =>
        absurd (spared place there) (by simp [chosen])
      exact (purged.removed place chosen).trans (Option.not_isSome_iff_eq_none.mp absent).symm
    · exact purged.kept place chosen
  | _ => exact absurd trivial past

/-- An observable call is reported, in well-formed events if its input is well formed. -/
theorem exists_reported_formed {sound : Prop} (honest : op.Honest) (formed : sound → op.WellFormed)
    (observable : op.Observable store) :
    ∃ events, Reported store (op.step store) events ∧ (sound → store.Formed →
      (op.step store).Formed ∧ ∀ event ∈ events, event.Formed) := by
  by_cases funnelled : op.Funnelled
  · obtain ⟨events, traced, -, images⟩ :=
      told_of_funnelled present funnelled honest observable.1 formed
    exact ⟨events, ⟨traced.contents, traced.observed, traced.databases⟩, fun ok before =>
      ⟨traced.formed before (images ok before), images ok before⟩⟩
  obtain ⟨silent, same⟩ := silent_of_keepsTables present funnelled observable.2
  refine ⟨[], .of_silent silent same, fun _ before => ⟨?_, fun _ member => ?_⟩⟩
  · intro place entry stored
    rw [same] at stored
    exact before place entry stored
  · exact absurd member List.not_mem_nil

theorem exists_reported (honest : op.Honest) (observable : op.Observable store) :
    ∃ events, Reported store (op.step store) events := by
  obtain ⟨events, reported, -⟩ :=
    exists_reported_formed present honest False.elim observable
  exact ⟨events, reported⟩

private theorem exists_reported_run (honest : ∀ op ∈ ops, op.Honest)
    (observable : Throughout Observable store ops) :
    ∃ events, Reported store (run store ops) events := by
  induction ops generalizing store with
  | nil => exact ⟨[], .of_silent (SameHooks.refl store).silent rfl⟩
  | cons op ops ih =>
    obtain ⟨before, first⟩ := exists_reported present (honest op List.mem_cons_self) observable.1
    obtain ⟨after, rest⟩ := ih (first.databases.symm ▸ present)
      (fun other member => honest other (List.mem_cons_of_mem _ member)) observable.2
    exact ⟨before ++ after, first.trans rest⟩

/-- A call that the observer cannot follow changes the contents and says nothing. -/
private theorem silent_of_not_observable (hidden : ¬op.Observable store) :
    Silent store (op.step store) ∧ (op.step store).contents ≠ store.contents := by
  rcases not_and_or.mp hidden with moved | changed
  · cases op with
    | rmw db key now f =>
      unfold LeavesDeadline at moved
      push Not at moved
      obtain ⟨entry, found, live, mutated, other⟩ := moved
      obtain ⟨hooks, written⟩ := rmw_mutated present found live mutated
      refine ⟨hooks.silent, fun same => other ?_⟩
      have here := congrFun (written.symm.trans same) (store.dbIndex db, key)
      rw [Function.update_self] at here
      unfold contents at here
      rw [found] at here
      exact congrArg Entry.expireAt (Option.some.inj here)
    | _ => exact absurd trivial moved
  cases op with
  | swapDb a b =>
    unfold KeepsTables at changed
    push Not at changed
    obtain ⟨key, different⟩ := changed
    refine ⟨silent_swapDb, fun same => different ?_⟩
    have here := congrFun same (store.dbIndex a, key)
    change (store.swapDb a b).contents _ = _ at here
    rw [contents_swapDb present, Equiv.swap_apply_left] at here
    exact here.symm
  | removeKeysWhere pred =>
    unfold KeepsTables at changed
    push Not at changed
    obtain ⟨place, there, chosen⟩ := changed
    have purged := purged_removeKeysWhere pred store
    refine ⟨purged.silent, fun same => ?_⟩
    have gone := (congrFun same place).symm.trans (purged.removed place (Bool.of_not_eq_false chosen))
    rw [gone] at there
    cases there
  | _ => exact absurd trivial changed

theorem kept_step (honest : op.Honest) : Kept store (op.step store) := by
  have obeys : op.Obeys ⟨False, fun _ => True, True, True⟩ (fun _ => True) store :=
    ⟨honest, False.elim, names_of_any (fun _ => trivial), fun strict => absurd trivial strict,
      fun strict => absurd trivial strict⟩
  exact (obeys.moves (governs_of_names fun _ => trivial) present).kept

end

/-- The observer of a store accounts for every run whose calls it can follow, and it can follow
a call exactly where the call is observable: databases that are swapped hold the same, a purge
finds no key, and `Mutated` from a closure of the read-only `rmw` leaves the deadline. -/
theorem replayEvents_observed {store : ShardStore E} (present : 0 < store.databases)
    {prior : List WriteEvent} (installed : store.observed = some prior) :
    (∀ ops, (∀ op ∈ ops, op.Honest) → Throughout Observable store ops →
      ∃ events, (run store ops).observed = some (prior ++ events) ∧
        (run store ops).contents = store.replayEvents events) ∧
    ∀ op : Op, op.Honest → ((∃ events, (op.step store).observed = some (prior ++ events) ∧
          (op.step store).contents = store.replayEvents events) ↔ op.Observable store) := by
  constructor
  · intro ops honest observable
    obtain ⟨events, reported⟩ := exists_reported_run present honest observable
    refine ⟨events, ?_, reported.contents⟩
    rw [reported.observed, installed]
    rfl
  · intro op honest
    constructor
    · rintro ⟨events, heard, same⟩
      by_contra hidden
      obtain ⟨silent, different⟩ := silent_of_not_observable present hidden
      rw [silent.observed, installed] at heard
      have nothing : events = [] := by simpa using heard
      rw [nothing] at same
      exact different same
    · intro observable
      obtain ⟨events, reported⟩ := exists_reported present honest observable
      refine ⟨events, ?_, reported.contents⟩
      rw [reported.observed, installed]
      rfl

def watchedPair : ShardStore NullEviction :=
  { withHooks 2 {} with observed := some [] }

def sampleCalls : List Op :=
  [.upsert 0 [97] (.bytes [1]) (.set 9) 3, .swapDb 1 1,
    .rmw 0 [97] 4 fun _ => ⟨.mutated, .keep, ()⟩, .removeKeysWhere fun _ => false,
    .moveObject 0 [97] 1 [98] .copy false 5, .flushDb 0]

theorem replayEvents_observed_sampleCalls :
    ∃ events, (run watchedPair sampleCalls).observed = some ([] ++ events) ∧
      (run watchedPair sampleCalls).contents = watchedPair.replayEvents events := by
  refine (replayEvents_observed (by decide) rfl).1 sampleCalls (by simp [sampleCalls, Honest]) ?_
  exact ⟨⟨trivial, trivial⟩, ⟨trivial, fun _ => rfl⟩, ⟨fun _ _ _ _ => rfl, trivial⟩,
    ⟨trivial, fun _ _ => rfl⟩, ⟨trivial, trivial⟩, ⟨trivial, trivial⟩, trivial⟩

/-- A key is written; then its database is swapped away, or the key is purged, or a closure of
`rmw` gives it a deadline and answers `Mutated`. The events lead elsewhere each time. -/
theorem observed_misses_change :
    watchedPair.observed = some [] ∧ ∀ last ∈ [.swapDb 0 1, .removeKeysWhere (· == [97]),
      .rmw 0 [97] 4 fun _ => ⟨.mutated, .set 9, ()⟩], Honest last ∧ ∀ events,
          (run watchedPair [.upsert 0 [97] (.bytes [1]) .clear 3, last]).observed = some events →
          (run watchedPair [.upsert 0 [97] (.bytes [1]) .clear 3, last]).contents (0, [97]) ≠
            watchedPair.replayEvents events (0, [97]) := by
  refine ⟨rfl, fun last member => ?_⟩
  simp only [List.mem_cons, List.not_mem_nil, or_false] at member
  rcases member with rfl | rfl | rfl
  all_goals
    refine ⟨trivial, fun events heard => ?_⟩
    cases heard
    decide

end Op

end IronCache.Store
