import IronCache.Store.Watching

/-!
# Runs with watches

What a watch answers is what happened to its key since the snapshot.
-/

namespace IronCache.Store

open ShardStore

namespace ShardStore

variable {E : Type} [EvictionPolicy E]

variable {store : ShardStore E} {entry : WatchEntry}

private theorem watchIsDirty_of_dirty (tends : store.Tends entries) (inside : entry.db < store.databases)
    (dirty : store.Dirty entry) : (store.watchIsDirty entry now).1 = true := by
  obtain ⟨slot, held, newer⟩ := dirty.alters tends (alters_expireIfDue inside entry.key now)
  unfold watchIsDirty
  dsimp only
  split
  · rfl
  · rw [held]
    exact bne_iff_ne.mpr newer.ne'

theorem watchIsDirty_of_clean (inside : entry.db < store.databases) (clean : store.Clean entry)
    (now : ℕ) : (store.watchIsDirty entry now).1 = true ↔ store.DueBy entry.place now := by
  have answered := expireIfDue_fst entry.db entry.key now store
  refine Iff.trans ?_ (dueBy_iff inside).symm
  have present : (store.contents (entry.db, entry.key)).isSome = entry.presentAtWatch := clean.present
  rw [present]
  cases live : store.liveEntry entry.db entry.key now with
  | some held =>
    -- a live key is left alone and present as before
    obtain ⟨found, fresh⟩ := liveEntry_eq_some live
    have resident := resident_of_find inside found
    rw [present] at resident
    obtain ⟨slot, there, same⟩ := Option.map_eq_some_iff.mp clean.version
    unfold watchIsDirty
    rw [expireIfDue_of_live found fresh]
    simp [resident, there, same]
  | none =>
    rw [live] at answered
    unfold watchIsDirty
    dsimp only
    rw [answered]
    cases watched : entry.presentAtWatch with
    | true => simp
    | false =>
      -- an absent key stays absent
      have absent : store.find (store.dbIndex entry.db) entry.key = none := by
        rw [watched] at present
        rw [dbIndex_of_lt inside]
        unfold contents at present
        simpa using present
      have same : (store.expireIfDue entry.db (store.dbIndex entry.db) entry.key now).2 =
          store := by
        unfold expireIfDue
        rw [absent]
      obtain ⟨slot, there, dated⟩ := Option.map_eq_some_iff.mp clean.version
      rw [same]
      simp [there, dated]

/-- A call keeps eviction to the databases in range, whatever its closure does. -/
theorem Steered.rmwMut {held : E → Prop} (governs : Governs rules held)
    (steered : Steered rules held store) (named : rules.names db) (key : Bytes) (now : ℕ)
    (f : Option OccupiedEntryMut → List CollEdit × RmwStep R) :
    Steered rules held (store.rmwMut db key now f).2 := by
  have expired := steered.moves governs (moves_expireIfDue named store key now)
  unfold ShardStore.rmwMut
  dsimp only
  generalize (store.expireIfDue db (store.dbIndex db) key now) = outcome at expired
  split
  · split
    · exact expired
    · exact expired
    · exact expired
    · exact expired.putObject governs named _ key _
    · exact expired.putObject governs named _ key _
  rename_i entry _
  have edited := expired.setEntry (store.dbIndex db) key (entry.bumpFreq.editAll
    (f (some (entry.bumpFreq.occupiedMut outcome.2.encodingThresholds))).1)
  split
  · unfold retime
    split
    · exact edited
    exact edited.of_sameRoster (sameRoster_touchWatch.trans
      ((sameRoster_setEntryExpire _ _ _ _).trans (sameRoster_observePut _ _ _ _)))
      ((kept_touchWatch db key _).trans
        ((kept_setEntryExpire _ _ _ _).trans (kept_observePut _ _ _ _))).databases
  · exact edited.putObject governs named _ key _
  · exact edited.putObject governs named _ key _
  · exact edited.removeObjectCrediting governs db _ key _
  · exact edited.commitEdit governs named _ key _ _ _ _

end ShardStore

def Op.time : Op → Option ℕ
  | .read _ _ now | .contains _ _ now | .upsert _ _ _ _ now | .delete _ _ now | .rmw _ _ now _
  | .rmwMut _ _ now _ | .moveObject _ _ _ _ _ _ now | .reapIfExpired _ _ now
  | .evictToFit _ _ now => some now
  | .insertObject _ _ | .flushDb _ | .flushAll | .swapDb _ _ | .removeKeysWhere _ => none

/-- The command layer has validated the database numbers. -/
def Op.InRange (databases : ℕ) : Op → Prop
  | .read db _ _ | .contains db _ _ | .upsert db _ _ _ _ | .delete db _ _ | .rmw db _ _ _
  | .rmwMut db _ _ _ | .insertObject db _ | .reapIfExpired db _ _ | .flushDb db => db < databases
  | .moveObject srcDb _ dstDb _ _ _ _ => srcDb < databases ∧ dstDb < databases
  | .swapDb a b => a < databases ∧ b < databases
  | .flushAll | .removeKeysWhere _ | .evictToFit _ _ _ => True

/-- What the connections do to a store. Watches are numbered in the order of their snapshots. -/
inductive Act where
  | call (op : Op)
  | watch (db : ℕ) (key : Bytes) (now : ℕ)
  | check (number now : ℕ)
  | unwatch (numbers : List ℕ)

/-- A store with its outstanding watches, the number of snapshots taken and the last time told. -/
structure Session (E : Type) where
  store : ShardStore E
  watches : List (ℕ × WatchEntry)
  taken : ℕ
  time : ℕ

namespace Act

variable {E : Type}

def time : Act → Option ℕ
  | .call op => op.time
  | .watch _ _ now | .check _ now => some now
  | .unwatch _ => none

def InRange (databases : ℕ) : Act → Prop
  | .call op => op.InRange databases
  | .watch db _ _ => db < databases
  | .check _ _ | .unwatch _ => True

/-- Times do not decrease, and a closure of `rmw` does not answer `Mutated`. -/
def Orderly (session : Session E) (act : Act) : Prop :=
  (∀ now ∈ act.time, session.time ≤ now) ∧
    match act with
    | .call op => op.ReadsOnly
    | .watch _ _ _ | .check _ _ | .unwatch _ => True

def Discreet (store : ShardStore E) : Act → Prop
  | .call op => op.Discreet store
  | .watch _ _ _ | .check _ _ | .unwatch _ => True

def Rewrites (store : ShardStore E) (act : Act) (place : ℕ × Bytes) : Prop :=
  match act with
  | .call op => op.Rewrites store place
  | .watch _ _ _ | .check _ _ | .unwatch _ => False

end Act

namespace Session

variable {E : Type} [EvictionPolicy E]

def start (store : ShardStore E) : Session E := ⟨store, [], 0, 0⟩

def step (session : Session E) (act : Act) : Session E :=
  let time := act.time.getD session.time
  match act with
  | .call op => { session with store := op.step session.store, time }
  | .watch db key now =>
    let (entry, store) := session.store.watchSnapshot db key now
    { store, watches := (session.taken, entry) :: session.watches, taken := session.taken + 1, time }
  | .check number now =>
    match session.watches.lookup number with
    | some entry => { session with store := (session.store.watchIsDirty entry now).2, time }
    | none => { session with time }
  | .unwatch numbers =>
    let (leaving, staying) := session.watches.partition (·.1 ∈ numbers)
    { session with
      store := session.store.unwatch (leaving.map Prod.snd)
      watches := staying
      time }

def run (session : Session E) (acts : List Act) : Session E := acts.foldl step session

def Throughout (property : Session E → Act → Prop) : Session E → List Act → Prop
  | _, [] => True
  | session, act :: acts => property session act ∧ Throughout property (session.step act) acts

/-- An act changes a key: it creates, overwrites, edits or renames over it, gives it another
deadline, flushes or swaps its database; or deletes, evicts or expires it. -/
def Touches (session : Session E) (act : Act) (place : ℕ × Bytes) : Prop :=
  act.Rewrites session.store place ∨ (session.step act).store.contents place ≠ session.store.contents place ∨
      ∃ now ∈ act.time, session.store.DueBy place now

def TouchedIn : Session E → List Act → ℕ × Bytes → Prop
  | _, [], _ => False
  | session, act :: acts, place =>
    session.Touches act place ∨ TouchedIn (session.step act) acts place

/-- What every step of a session keeps. -/
structure Sound (databases : ℕ) (held : E → Prop) (session : Session E) : Prop where
  present : 0 < databases
  count : session.store.databases = databases
  active : session.store.passive = false
  steered : Steered (ranged databases) held session.store
  tends : session.store.Tends (session.watches.map Prod.snd)
  numbered : ∀ watch ∈ session.watches, watch.1 < session.taken
  inside : ∀ watch ∈ session.watches, watch.2.db < databases

end Session

variable {E : Type} [EvictionPolicy E]

variable {held : E → Prop} {store : ShardStore E} {databases : ℕ}

omit [EvictionPolicy E] in
theorem Op.InRange.names {op : Op} (inRange : op.InRange databases) (count : store.databases = databases)
    (steered : Steered (ranged databases) held store) : op.Names (ranged databases) held store := by
  cases op with
  | flushAll => exact fun db inside => count ▸ inside
  | removeKeysWhere => trivial
  | evictToFit => exact steered
  | _ => exact inRange

theorem Op.InRange.steered {op : Op} (governs : Governs (ranged databases) held)
    (present : 0 < databases) (inRange : op.InRange databases) (count : store.databases = databases)
    (steered : Steered (ranged databases) held store) : Steered (ranged databases) held (op.step store) := by
  have names := inRange.names count steered
  have moves : op.Honest → Moves (ranged databases) store (op.step store) := fun honest =>
    Obeys.moves governs (count.symm ▸ present) ⟨honest, False.elim, names, fun strict =>
      absurd trivial strict, fun strict => absurd trivial strict⟩
  cases op with
  | rmwMut db key now f => exact steered.rmwMut governs names key now f
  | _ => exact steered.moves governs (moves trivial)

namespace Session

variable {session : Session E} {entry : WatchEntry} {watch : ℕ × WatchEntry}

variable {act : Act} {happened : Prop} {acts : List Act}

/-- What one act makes of a watch that is outstanding before and after. -/
structure Follows (session : Session E) (act : Act) (entry : WatchEntry) : Prop where
  dirty : session.store.Dirty entry → (session.step act).store.Dirty entry
  touched : session.store.Clean entry → (act.Rewrites session.store entry.place ∨
    (session.step act).store.contents entry.place ≠ session.store.contents entry.place) →
      (session.step act).store.Dirty entry
  clean : session.store.Clean entry → ¬(act.Rewrites session.store entry.place ∨
    (session.step act).store.contents entry.place ≠ session.store.contents entry.place) →
      (session.step act).store.Clean entry

/-- An act that expires a key at most and keeps the versions of the slots. -/
theorem follows_of_steady (tends : session.store.Tends entries)
    (alters : Alters (fun _ => False) session.store middle)
    (steady : Steady entry middle (session.step act).store)
    (reads : ¬act.Rewrites session.store entry.place) : session.Follows act entry where
  dirty dirty := steady.dirty (dirty.alters tends alters)
  touched clean chosen := by
    have changed := chosen.resolve_left reads
    rw [steady.contents] at changed
    exact steady.dirty ((clean.alters tends alters).1 (.inr changed))
  clean clean quiet := by
    rw [not_or, steady.contents] at quiet
    exact steady.clean ((clean.alters tends alters).2 (not_or.mpr ⟨not_false, quiet.2⟩))

private theorem watchIsDirty_snd : (store.watchIsDirty entry now).2 =
      (store.expireIfDue entry.db (store.dbIndex entry.db) entry.key now).2 := by
  unfold watchIsDirty
  dsimp only
  split
  · rfl
  · split <;> rfl

private theorem mem_of_lookup {watches : List (ℕ × WatchEntry)} {number : ℕ}
    (found : watches.lookup number = some entry) : (number, entry) ∈ watches := by
  induction watches with
  | nil => cases found
  | cons watch watches ih =>
    rw [List.lookup_cons] at found
    split at found
    · rename_i same
      cases found
      rw [beq_iff_eq.mp same]
      exact List.mem_cons_self
    · exact List.mem_cons_of_mem _ (ih found)

/-- Every call is one of a validated database, in the order of time, and every edit in place that
its closure says nothing of changes nothing. -/
def Allowed (databases : ℕ) (session : Session E) (act : Act) : Prop :=
  act.Orderly session ∧ act.InRange databases ∧ act.Discreet session.store

/-- A number is given once. -/
private theorem mem_watches_of_step (old : watch.1 < session.taken)
    (member : watch ∈ (session.step act).watches) : watch ∈ session.watches := by
  cases act with
  | call op => exact member
  | watch db key now =>
    rcases List.mem_cons.mp member with rfl | before
    · exact absurd old (lt_irrefl _)
    · exact before
  | check number now =>
    unfold Session.step at member
    dsimp only at member
    split at member <;> exact member
  | unwatch numbers =>
    unfold Session.step at member
    dsimp only at member
    rw [List.partition_eq_filter_filter] at member
    exact (List.mem_filter.mp member).1

theorem taken_le_step (act : Act) : session.taken ≤ (session.step act).taken := by
  cases act with
  | watch db key now => exact Nat.le_succ _
  | check number now =>
    unfold Session.step
    dsimp only
    split <;> exact le_refl _
  | call | unwatch => exact le_refl _

private theorem time_step (act : Act) : (session.step act).time = act.time.getD session.time := by
  cases act with
  | check number now =>
    unfold Session.step
    dsimp only
    split <;> rfl
  | call | watch | unwatch => rfl

/-- A watch is clean until something happens to its key. -/
def Settled (session : Session E) (entry : WatchEntry) (happened : Prop) : Prop :=
  (happened → session.store.Dirty entry ∨
      session.store.Clean entry ∧ session.store.DueBy entry.place session.time) ∧
    (¬happened → session.store.Clean entry)

theorem Settled.step (settled : session.Settled entry happened) (orderly : act.Orderly session)
    (follows : session.Follows act entry) :
    (session.step act).Settled entry (happened ∨ session.Touches act entry.place) := by
  have later : session.time ≤ (session.step act).time := by
    rw [time_step]
    cases told : act.time with
    | none => exact le_refl _
    | some now => exact orderly.1 now told
  -- a clean watch that the act leaves clean keeps its contents, and what is due stays due
  have onward : session.store.Clean entry → ∀ {now}, now ≤ (session.step act).time →
      session.store.DueBy entry.place now → (session.step act).store.Dirty entry ∨
        (session.step act).store.Clean entry ∧
          (session.step act).store.DueBy entry.place (session.step act).time := by
    intro clean now passed due
    by_cases chosen : act.Rewrites session.store entry.place ∨
        (session.step act).store.contents entry.place ≠ session.store.contents entry.place
    · exact .inl (follows.touched clean chosen)
    have same := not_not.mp (not_or.mp chosen).2
    obtain ⟨resident, held, expired⟩ := due.later passed
    exact .inr ⟨follows.clean clean chosen, resident, same.trans held, expired⟩
  constructor
  · intro some
    by_cases before : happened
    · rcases settled.1 before with dirty | ⟨clean, due⟩
      · exact .inl (follows.dirty dirty)
      · exact onward clean later due
    have clean := settled.2 before
    rcases some.resolve_left before with rewritten | changed | ⟨now, told, due⟩
    · exact .inl (follows.touched clean (.inl rewritten))
    · exact .inl (follows.touched clean (.inr changed))
    · refine onward clean ?_ due
      rw [time_step, Option.mem_def.mp told]
      exact le_refl _
  · intro never
    obtain ⟨before, untouched⟩ := not_or.mp never
    refine follows.clean (settled.2 before) fun chosen => untouched ?_
    exact chosen.imp_right .inl

private theorem mem_watches_of_run (old : watch.1 < session.taken)
    (member : watch ∈ (session.run acts).watches) : watch ∈ session.watches := by
  induction acts generalizing session with
  | nil => exact member
  | cons act acts ih =>
    refine mem_watches_of_step old (ih ?_ member)
    exact old.trans_le (taken_le_step act)

theorem throughout_append {property : Session E → Act → Prop}
    (throughout : session.Throughout property (before ++ after)) :
    session.Throughout property before ∧ (session.run before).Throughout property after := by
  induction before generalizing session with
  | nil => exact ⟨trivial, throughout⟩
  | cons act before ih =>
    obtain ⟨early, late⟩ := ih throughout.2
    exact ⟨⟨throughout.1, early⟩, late⟩

/-- An edit in place that the closure keeps to itself: the key has changed and no watch knows. -/
private theorem unnoticed_edit (inside : entry.db < store.databases) (clean : store.Clean entry)
    (hidden : ¬(Op.rmwMut entry.db entry.key now f).Discreet store) :
    (store.rmwMut entry.db entry.key now f).2.contents entry.place ≠ store.contents entry.place ∧
      (store.rmwMut entry.db entry.key now f).2.Clean entry ∧
      (store.rmwMut entry.db entry.key now f).2.databases = store.databases := by
  unfold Op.Discreet at hidden
  simp only [not_forall] at hidden
  obtain ⟨resident, live, keeps, dated, changed⟩ := hidden
  obtain ⟨found, fresh⟩ := liveEntry_eq_some live
  have computed : (store.rmwMut entry.db entry.key now f).2 =
      store.setEntry (store.dbIndex entry.db) entry.key (resident.bumpFreq.editAll
        (f (some (resident.bumpFreq.occupiedMut store.encodingThresholds))).1) := by
    unfold rmwMut
    dsimp only
    rw [liveEntry_eq, live, expireIfDue_of_live found fresh]
    dsimp only
    rw [keeps, expireAt_editAll]
    exact if_pos dated
  rw [computed, dbIndex_of_lt inside]
  rw [dbIndex_of_lt inside] at found
  have written := congrFun (contents_setEntry inside entry.key (resident.bumpFreq.editAll
    (f (some (resident.bumpFreq.occupiedMut store.encodingThresholds))).1)) entry.place
  rw [show entry.place = (entry.db, entry.key) from rfl, Function.update_self] at written
  have before : store.contents entry.place = some resident.bare := by
    exact congrArg (Option.map Entry.bare) found
  refine ⟨fun same => changed ?_, ⟨clean.version, ?_⟩, ?_⟩
  · exact Option.some.inj (written.symm.trans (same.trans before))
  · rw [← clean.present, before]
    exact (congrArg Option.isSome written).trans rfl
  · exact (kept_setEntry _ _ _ store).databases

private theorem touchedIn_concat (touched : (session.run acts).Touches last place) :
    session.TouchedIn (acts ++ [last]) place := by
  induction acts generalizing session with
  | nil => exact .inl touched
  | cons act acts ih => exact .inr (ih touched)

omit [EvictionPolicy E] in
private theorem sound_start (present : 0 < databases) (count : store.databases = databases)
    (active : store.passive = false) (slotless : store.watchVersions = ∅) (unwatched : store.watchedCount = 0)
    (steered : Steered (ranged databases) held store) : (start store).Sound databases held := by
  have absent : ∀ place, store.slot place = none := fun place => by
    unfold slot
    rw [slotless]
    exact OrdMap.get?_empty
  refine ⟨present, count, active, steered, ⟨fun place => ?_, ?_, ?_, unwatched⟩,
    fun _ member => absurd member List.not_mem_nil, fun _ member => absurd member List.not_mem_nil⟩
  · change ((store.slot place).map WatchSlot.watchers).getD 0 = 0
    rw [absent]
    rfl
  · intro place slot found
    exact absurd ((absent place).symm.trans found) (Option.some_ne_none slot).symm
  · intro place slot found
    exact absurd ((absent place).symm.trans found) (Option.some_ne_none slot).symm

section

variable (governs : Governs (ranged databases) held) (sound : session.Sound databases held)

include sound

private theorem sound_unwatch (numbers : List ℕ) : (session.step (.unwatch numbers)).Sound databases held ∧
      ∀ watch ∈ (session.step (.unwatch numbers)).watches, session.Follows (.unwatch numbers) watch.2 := by
  have same : session.step (.unwatch numbers) = { session with
      store := session.store.unwatch ((session.watches.filter (·.1 ∈ numbers)).map Prod.snd)
      watches := session.watches.filter fun watch => !decide (watch.1 ∈ numbers) } := by
    unfold step
    dsimp only
    rw [List.partition_eq_filter_filter]
    rfl
  have parted : (session.watches.map Prod.snd).Perm ((session.watches.filter (·.1 ∈ numbers)).map Prod.snd ++
        (session.watches.filter fun watch => !decide (watch.1 ∈ numbers)).map Prod.snd) := by
    rw [← List.map_append]
    exact (List.filter_append_perm _ session.watches).symm.map Prod.snd
  obtain ⟨tends, steady⟩ := tends_unwatch (sound.tends.perm parted)
  obtain ⟨kept, roster⟩ := frame_unwatch ((session.watches.filter (·.1 ∈ numbers)).map Prod.snd) session.store
  have fewer : ∀ watch ∈ session.watches.filter (fun watch => !decide (watch.1 ∈ numbers)),
      watch ∈ session.watches := fun watch member => (List.mem_filter.mp member).1
  rw [same]
  refine ⟨⟨sound.present, kept.databases.trans sound.count, kept.passive.trans sound.active,
    sound.steered.of_sameRoster roster kept.databases, tends,
    fun watch member => sound.numbered watch (fewer watch member),
    fun watch member => sound.inside watch (fewer watch member)⟩, fun watch member => ?_⟩
  refine follows_of_steady sound.tends (.refl _) ?_ not_false
  rw [same]
  exact steady watch.2 (List.mem_map_of_mem member)

theorem Settled.answer (settled : session.Settled watch.2 happened)
    (outstanding : watch ∈ session.watches) (passed : session.time ≤ later) :
    (session.store.watchIsDirty watch.2 later).1 = true ↔
      happened ∨ session.store.DueBy watch.2.place later := by
  have inside : watch.2.db < session.store.databases :=
    sound.count.symm ▸ sound.inside watch outstanding
  have cleanly := fun clean : session.store.Clean watch.2 =>
    watchIsDirty_of_clean inside clean later
  by_cases before : happened
  · refine iff_of_true ?_ (.inl before)
    rcases settled.1 before with dirty | ⟨clean, due⟩
    · exact watchIsDirty_of_dirty sound.tends inside dirty
    · exact (cleanly clean).mpr (due.later passed)
  · rw [or_iff_right before]
    exact cleanly (settled.2 before)

include governs

private theorem sound_call {op : Op} (inRange : op.InRange databases) (readsOnly : op.ReadsOnly)
    (discreet : op.Discreet session.store) :
    (session.step (.call op)).Sound databases held ∧ ∀ entry, session.Follows (.call op) entry := by
  have count := sound.count
  have alters : Alters (op.Rewrites session.store) session.store (op.step session.store) := by
    subst count
    exact Op.alters governs sound.present (inRange.names rfl sound.steered) discreet readsOnly
  refine ⟨⟨sound.present, alters.kept.databases.trans count, alters.kept.passive.trans sound.active,
    inRange.steered governs sound.present count sound.steered, sound.tends.alters alters,
    sound.numbered, sound.inside⟩, fun entry => ?_⟩
  exact ⟨fun dirty => dirty.alters sound.tends alters, fun clean => (clean.alters sound.tends alters).1,
    fun clean => (clean.alters sound.tends alters).2⟩

/-- The expiry check of a key in range. -/
theorem sound_expire (inside : db < databases) (key : Bytes) (now : ℕ) :
    let store := (session.store.expireIfDue db (session.store.dbIndex db) key now).2
    Alters (fun _ => False) session.store store ∧ store.databases = databases ∧ store.passive = false ∧
      Steered (ranged databases) held store := by
  have within : db < session.store.databases := sound.count.symm ▸ inside
  have alters := alters_expireIfDue within key now
  have moves : Moves (ranged databases) session.store _ :=
    moves_expireIfDue inside _ key now
  exact ⟨alters, alters.kept.databases.trans sound.count, alters.kept.passive.trans sound.active,
    sound.steered.moves governs moves⟩

theorem sound_watch (inside : db < databases) (key : Bytes) (now : ℕ) :
    (session.step (.watch db key now)).Sound databases held ∧
      (∀ entry, session.Follows (.watch db key now) entry) ∧
      (session.step (.watch db key now)).store.Clean (session.store.watchSnapshot db key now).1 := by
  obtain ⟨alters, count, active, steered⟩ := sound_expire governs sound inside key now
  have resident := isSome_expireIfDue (sound.count.symm ▸ inside) sound.active key now
  have registers := registers_register db key
    (session.store.expireIfDue db (session.store.dbIndex db) key now).1
    (session.store.expireIfDue db (session.store.dbIndex db) key now).2
  have tends := registers.tends (sound.tends.alters alters)
  refine ⟨⟨sound.present, registers.kept.databases.trans count, registers.kept.passive.trans active,
    steered.of_sameRoster ⟨rfl, rfl⟩ registers.kept.databases, tends, ?_, ?_⟩, fun entry => ?_, ?_, ?_⟩
  · intro watch member
    rcases List.mem_cons.mp member with rfl | old
    · exact Nat.lt_succ_self session.taken
    · exact Nat.lt_succ_of_lt (sound.numbered watch old)
  · intro watch member
    rcases List.mem_cons.mp member with rfl | old
    · exact inside
    · exact sound.inside watch old
  · exact follows_of_steady sound.tends alters (registers.steady entry) not_false
  · obtain ⟨slot, given, dated, -⟩ := registers.slot
    exact (congrArg (Option.map WatchSlot.version) given).trans (congrArg some dated)
  · exact (congrArg (fun contents => (contents (db, key)).isSome) registers.contents).trans resident

private theorem sound_check (number now : ℕ) : (session.step (.check number now)).Sound databases held ∧
      ∀ entry, session.Follows (.check number now) entry := by
  cases found : session.watches.lookup number with
  | none =>
    have same : session.step (.check number now) = { session with time := now } := by
      unfold step
      dsimp only
      rw [found]
      rfl
    refine ⟨by rw [same]; exact ⟨sound.present, sound.count, sound.active, sound.steered, sound.tends,
      sound.numbered, sound.inside⟩, fun entry => ?_⟩
    refine follows_of_steady sound.tends (.refl _) ?_ not_false
    rw [same]
    exact .refl entry session.store
  | some asked =>
    obtain ⟨alters, count, active, steered⟩ := sound_expire governs sound
      (sound.inside _ (mem_of_lookup found)) asked.key now
    rw [← watchIsDirty_snd] at alters count active steered
    have same : session.step (.check number now) =
        { session with store := (session.store.watchIsDirty asked now).2, time := now } := by
      unfold step
      dsimp only
      rw [found]
      rfl
    refine ⟨by rw [same]; exact ⟨sound.present, count, active, steered, sound.tends.alters alters,
      sound.numbered, sound.inside⟩, fun entry => ?_⟩
    refine follows_of_steady sound.tends alters ?_ not_false
    rw [same]
    exact .refl entry _

theorem Sound.step (allowed : session.Allowed databases act) : (session.step act).Sound databases held ∧
      ∀ watch ∈ (session.step act).watches, session.Follows act watch.2 := by
  obtain ⟨⟨-, readsOnly⟩, inRange, discreet⟩ := allowed
  cases act with
  | call op =>
    obtain ⟨after, follows⟩ := sound_call governs sound inRange readsOnly discreet
    exact ⟨after, fun watch _ => follows watch.2⟩
  | watch db key now =>
    obtain ⟨after, follows, -⟩ := sound_watch governs sound inRange key now
    exact ⟨after, fun watch _ => follows watch.2⟩
  | check number now =>
    obtain ⟨after, follows⟩ := sound_check governs sound number now
    exact ⟨after, fun watch _ => follows watch.2⟩
  | unwatch numbers => exact sound_unwatch sound numbers

theorem Sound.run (acts : List Act) (allowed : session.Throughout (Allowed databases) acts) :
    (session.run acts).Sound databases held := by
  induction acts generalizing session with
  | nil => exact sound
  | cons act acts ih => exact ih (sound.step governs allowed.1).1 allowed.2

/-- By induction on the acts, with what happened before as part of the invariant. -/
private theorem settled_run (acts : List Act) (settled : session.Settled watch.2 happened)
    (old : watch.1 < session.taken) (allowed : session.Throughout (Allowed databases) acts)
    (outstanding : watch ∈ (session.run acts).watches) :
    (session.run acts).Settled watch.2 (happened ∨ session.TouchedIn acts watch.2.place) := by
  induction acts generalizing session happened with
  | nil =>
    unfold TouchedIn
    rw [or_false]
    exact settled
  | cons act acts ih =>
    obtain ⟨after, follows⟩ := sound.step governs allowed.1
    have known := old.trans_le (taken_le_step act)
    have stays := mem_watches_of_run known outstanding
    have next := settled.step allowed.1.1 (follows watch stays)
    have final := ih after next known allowed.2 outstanding
    rw [or_assoc] at final
    exact final

end

/-- Watches are counted, and a watch answers what happened to its key since the snapshot; an edit
in place that its closure keeps to itself is the one change it misses. -/
theorem watch_answers (governs : Governs (ranged databases) held) {store : ShardStore E}
    (present : 0 < databases) (count : store.databases = databases)
    (active : store.passive = false) (slotless : store.watchVersions = ∅) (unwatched : store.watchedCount = 0)
    (steered : Steered (ranged databases) held store) :
    (∀ acts, (start store).Throughout (Allowed databases) acts →
      ((start store).run acts).store.watchedCount = ((start store).run acts).watches.length) ∧
    ∀ before db key now after,
      (start store).Throughout (Allowed databases) (before ++ .watch db key now :: after) →
      let session := (start store).run before
      let entry := (session.store.watchSnapshot db key now).1
      let watched := session.step (.watch db key now)
      let final := watched.run after
      (session.taken, entry) ∈ final.watches →
        (∀ later, final.time ≤ later → ((final.store.watchIsDirty entry later).1 = true ↔
          watched.TouchedIn after (db, key) ∨ final.store.DueBy (db, key) later)) ∧
        ∀ time f, ¬watched.TouchedIn after (db, key) → ¬(Op.rmwMut db key time f).Discreet final.store →
          let edited := final.step (.call (.rmwMut db key time f))
          watched.TouchedIn (after ++ [.call (.rmwMut db key time f)]) (db, key) ∧
            ∀ later, (edited.store.watchIsDirty entry later).1 = true ↔
              edited.store.DueBy (db, key) later := by
  have begun := sound_start present count active slotless unwatched steered
  refine ⟨fun acts allowed => ?_, fun before db key now after allowed => ?_⟩
  · have counted := (begun.run governs acts allowed).tends.count
    rw [List.length_map] at counted
    exact counted
  · obtain ⟨early, watching, late⟩ := throughout_append allowed
    intro session entry watched final outstanding
    have sound := begun.run governs before early
    obtain ⟨next, -, clean⟩ := sound_watch governs sound watching.2.1 key now
    have settled : watched.Settled entry False := ⟨False.elim, fun _ => clean⟩
    have known : session.taken < watched.taken := Nat.lt_succ_self session.taken
    have ended := settled_run governs next after settled known late outstanding
    rw [false_or] at ended
    have reached := next.run governs after late
    refine ⟨fun later passed => ended.answer reached outstanding passed, ?_⟩
    intro time f untouched hidden edited
    have inside : entry.db < final.store.databases :=
      reached.count.symm ▸ reached.inside _ outstanding
    obtain ⟨changed, unaware, same⟩ := unnoticed_edit inside (ended.2 untouched) hidden
    refine ⟨touchedIn_concat (.inr (.inl changed)), fun later => ?_⟩
    exact watchIsDirty_of_clean (inside.trans_eq same.symm) unaware later

/-- A key is written, watched and deleted. -/
theorem watch_answers_deleted : let store : ShardStore NullEviction := .withHooks 1 {}
    let session := (start store).run [.call (.upsert 0 [97] (.bytes [1]) .clear 3)]
    let final := (session.step (.watch 0 [97] 4)).run [.call (.delete 0 [97] 5)]
    (final.store.watchIsDirty (session.store.watchSnapshot 0 [97] 4).1 5).1 = true := by
  intro store session final
  have governs : Governs (ranged 1) fun _ : NullEviction => True :=
    ⟨fun _ _ => trivial, fun _ => trivial, fun _ => ⟨trivial, fun _ chosen => by cases chosen⟩,
      fun _ _ => trivial⟩
  have steered : Steered (ranged 1) (fun _ => True) store :=
    ⟨trivial, fun _ member => absurd member List.not_mem_nil, fun _ inside => inside⟩
  have exact := (watch_answers governs Nat.one_pos rfl rfl rfl rfl steered).2
    [.call (.upsert 0 [97] (.bytes [1]) .clear 3)] 0 [97] 4 [.call (.delete 0 [97] 5)]
    ⟨⟨⟨by simp [Act.time, Op.time, start], trivial⟩, Nat.one_pos, trivial⟩,
      ⟨⟨by simp [Act.time, Op.time, step], trivial⟩, Nat.one_pos, trivial⟩,
      ⟨⟨by simp [Act.time, Op.time, step], trivial⟩, Nat.one_pos, trivial⟩, trivial⟩
    (List.mem_singleton.mpr rfl)
  exact (exact.1 5 (by decide)).mpr (.inl (.inl (.inr (.inl (by decide +kernel)))))

end Session

/-- A hash with a field due at 5 is watched at 4; `HSETEX` at 9 reaps the field and sets nothing,
as another field is missing. The value has changed, and the watch is clean. -/
theorem unnoticed_hsetex :
    let store : ShardStore NullEviction := .withHooks 1 {}
    let created : Act := .call (.rmwMut 0 [97] 3 fun _ =>
      ([], ⟨.insert (.hashEx [([1], [7]), ([2], [8])] [([1], 5)]), .clear, ()⟩))
    let condition : Act := .call (.rmwMut 0 [97] 9 (cmdHsetex false true false none [([3], [9])] 9))
    let session := (Session.start store).run [created]
    let watched := session.step (.watch 0 [97] 4)
    let final := watched.run [condition]
    let entry := (session.store.watchSnapshot 0 [97] 4).1
    (Session.start store).Throughout
        (fun session act => act.Orderly session ∧ act.InRange 1) [created, .watch 0 [97] 4, condition] ∧
      (session.taken, entry) ∈ final.watches ∧ watched.TouchedIn [condition] (0, [97]) ∧
      (final.store.watchIsDirty entry 9).1 = false := by
  refine ⟨?_, List.mem_singleton.mpr rfl, .inl (.inr (.inl ?_)), ?_⟩
  · exact ⟨⟨⟨by simp [Act.time, Op.time, Session.start], trivial⟩, Nat.one_pos⟩,
      ⟨⟨by simp [Act.time, Op.time, Session.step], trivial⟩, Nat.one_pos⟩,
      ⟨⟨by simp [Act.time, Op.time, Session.step], trivial⟩, Nat.one_pos⟩, trivial⟩
  · decide +kernel
  · decide +kernel

end IronCache.Store
