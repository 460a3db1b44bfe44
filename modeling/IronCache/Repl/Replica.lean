import IronCache.Repl.Stream

/-!
# What a passive replica holds

What is resident in a passive replica after any number of frames.
-/

namespace IronCache.Repl

open Store
open ShardStore
open List
open Op

def frameOf (start index : ℕ) (event : WriteEvent) : Frame :=
  opToFrame ((observe event).at (start + index + 1))

/-- A frame that the primary sends on the tail: a logged write under its offset, or no write. -/
inductive Genuine (start : ℕ) (log : List WriteEvent) : Frame → Prop
  | logged (found : log[index]? = some event) : Genuine start log (frameOf start index event)
  | conf : Genuine start log (.replConf node acked resumeToken)
  | ping : Genuine start log (.replPing replid offset)
  | fullSync : Genuine start log (.fullSync replid endOffset)
  | syncKv : Genuine start log (.syncKv db key kvobjBytes)
  | syncEnd : Genuine start log (.syncEnd endOffset)
  | importReq : Genuine start log (.importReq slot)

namespace Replica

variable {E F : Type} [EvictionPolicy F]

/-- The frames delivered to a replica, each with the time it is applied at. -/
def follow (replica : Replica F) (deliveries : List (Frame × ℕ)) : Replica F :=
  deliveries.foldl (fun replica delivery => (replica.apply delivery.1 delivery.2).2) replica

/-- A delete that is next in order finds its key live or absent. -/
def FindsLive (replica : Replica F) (delivery : Frame × ℕ) : Prop :=
  match delivery.1 with
  | .streamDel offset db key => offset = replica.applied + 1 →
      ∀ entry, replica.store.find (replica.store.dbIndex db) key = some entry →
        entry.isExpired delivery.2 = false
  | _ => True

/-- A property of each delivery in the state it is made in. -/
def Throughout (property : Replica F → Frame × ℕ → Prop) : Replica F → List (Frame × ℕ) → Prop
  | _, [] => True
  | replica, delivery :: deliveries =>
    property replica delivery ∧ Throughout property (replica.apply delivery.1 delivery.2).2 deliveries

/-- A passive replica in which resides what resides in its primary, both well kept. -/
structure Paired (origin : ShardStore E) (store : ShardStore F) : Prop where
  present : 0 < origin.databases
  databases : store.databases = origin.databases
  passive : store.passive = true
  formed : origin.Formed ∧ store.Formed
  accounted : origin.Accounted ∧ store.Accounted
  values : store.values = origin.values

/-- The resident values after the first writes of the log. -/
def valuesAfter (origin : ShardStore E) (log : List WriteEvent) (count : ℕ) : ℕ × Bytes → Option Meaning :=
  Change.replay origin.values ((log.take count).map (·.valued origin.databases))

/-- The replica has followed the first writes of the log. -/
structure Mirrors (start : ℕ) (origin : ShardStore E) (log : List WriteEvent) (count : ℕ)
    (replica : Replica F) : Prop where
  applied : replica.applied = start + count
  within : count ≤ log.length
  present : 0 < origin.databases
  databases : replica.store.databases = origin.databases
  passive : replica.store.passive = true
  formed : replica.store.Formed
  accounted : replica.store.Accounted
  values : replica.store.values = valuesAfter origin log count

/-- A frame leaves the settings of the store. -/
theorem kept_apply {replica : Replica F} (present : 0 < replica.store.databases) (frame : Frame)
    (now : ℕ) : ShardStore.Kept replica.store (replica.apply frame now).2.store := by
  rcases replica.apply_store frame now with
    same | ⟨offset, db, key, kvobjBytes, object, -, -, written⟩ | ⟨offset, db, key, -, removed⟩
  · rw [same]
    exact .refl _
  · rw [written]
    exact @Op.kept_step _ _ _ (.insertObject db object) present trivial
  · rw [removed]
    exact @Op.kept_step _ _ _ (.delete db key now) present trivial

variable {start : ℕ} {origin : ShardStore E} {log : List WriteEvent} {count : ℕ} {replica : Replica F}

theorem valuesAfter_succ (found : log[count]? = some event) : valuesAfter origin log (count + 1) =
      Change.apply (valuesAfter origin log count) (event.valued origin.databases) := by
  unfold valuesAfter
  rw [take_add_one, found, Option.toList_some, map_append, map_singleton, Change.replay_concat]

section

variable (mirrors : Mirrors start origin log count replica)
include mirrors

variable {key : Bytes} {event : WriteEvent}

omit [EvictionPolicy F] in
theorem Mirrors.inOrder (store : ShardStore F) : replica.inOrder (start + count + 1) (some store) =
      (.applied (replica.applied + 1), ⟨store, replica.applied + 1⟩) := by
  rw [← mirrors.applied]
  exact inOrder_next _ replica

theorem Mirrors.advance {store : ShardStore F} (found : log[count]? = some event)
    (moves : ShardStore.Moves funnel replica.store store) (formed : store.Formed)
    (values : store.values = valuesAfter origin log (count + 1)) :
    Mirrors start origin log (count + 1) ⟨store, replica.applied + 1⟩ where
  applied := by rw [mirrors.applied]; rfl
  within := (List.getElem?_eq_some_iff.mp found).1
  present := mirrors.present
  databases := moves.kept.databases.trans mirrors.databases
  passive := moves.kept.passive.trans mirrors.passive
  formed := formed
  accounted := moves.accounted (mirrors.databases ▸ mirrors.present) mirrors.accounted
  values := values

theorem Mirrors.apply_remove (db : ℕ) (now : ℕ) : replica.apply (frameOf start count (.remove db key)) now =
      (.applied (replica.applied + 1), ⟨(replica.store.delete db key now).2, replica.applied + 1⟩) :=
  mirrors.inOrder _

theorem Mirrors.put (found : log[count]? = some (.put db key entry)) (formed : entry.Formed key)
    (fits : FitsObject entry.toKvobj) (now : ℕ) : Mirrors start origin log (count + 1)
      (replica.apply (frameOf start count (.put db key entry)) now).2 := by
  have present : 0 < replica.store.databases := mirrors.databases ▸ mirrors.present
  obtain ⟨object, decoded, shaped, alike⟩ := exists_decoded formed fits
  have named : object.key = key := shaped.1
  have next : replica.apply (frameOf start count (.put db key entry)) now =
      (.applied (replica.applied + 1), ⟨replica.store.insertObject db object,
        replica.applied + 1⟩) := by
    change replica.inOrder (start + count + 1) ((decodeKvobj (encodeKvobj entry.toKvobj)).map
      (replica.store.insertObject db ·)) = _
    rw [decoded]
    exact mirrors.inOrder _
  have moves : ShardStore.Moves funnel replica.store (replica.store.insertObject db object) :=
    moves_insertObject trivial fun _ => shaped.2
  obtain ⟨image, bare, traced⟩ := traced_putObject present db object.key (.fromKvobj object)
  rw [next]
  refine mirrors.advance found moves ?_ ?_
  · refine traced.formed mirrors.formed fun event member => ?_
    cases mem_singleton.mp member
    exact ShardStore.Entry.Formed.of_bare bare (named.symm ▸ shaped)
  · have meaning : image.bare.value.meaning = entry.value.meaning := by
      rw [bare]
      exact congrArg Reading.meaning alike
    refine (values_update traced.contents).trans ?_
    rw [valuesAfter_succ found, ← mirrors.values, ← mirrors.databases, named]
    change Function.update replica.store.values _ (some image.bare.value.meaning) = _
    rw [meaning]
    rfl

theorem Mirrors.del (found : log[count]? = some (.remove db key))
    (live : ∀ entry, replica.store.find (replica.store.dbIndex db) key = some entry →
      entry.isExpired now = false) :
    Mirrors start origin log (count + 1)
      (replica.apply (frameOf start count (.remove db key)) now).2 := by
  have present : 0 < replica.store.databases := mirrors.databases ▸ mirrors.present
  have moves : ShardStore.Moves funnel replica.store (replica.store.delete db key now).2 :=
    moves_delete trivial key now
  have removed : (replica.store.delete db key now).2.contents =
      Function.update replica.store.contents (replica.store.dbIndex db, key) none := by
    rcases delete_passive present mirrors.passive db key now with
      ⟨entry, held, due, -⟩ | ⟨-, removed⟩
    · rw [live entry held] at due
      cases due
    · exact removed
  rw [mirrors.apply_remove]
  refine mirrors.advance found moves ?_ ?_
  · intro place entry stored
    rw [removed] at stored
    by_cases here : place = (replica.store.dbIndex db, key)
    · subst here
      rw [Function.update_self] at stored
      cases stored
    · rw [Function.update_of_ne here] at stored
      exact mirrors.formed place entry stored
  · refine (values_update removed).trans ?_
    rw [valuesAfter_succ found, ← mirrors.values, ← mirrors.databases]
    rfl

omit mirrors in
theorem apply_frameOf_other (applied : replica.applied = start + count) (other : index ≠ count) :
    (replica.apply (frameOf start index event) now).2 = replica := by
  have away : start + index + 1 ≠ replica.applied + 1 := by omega
  cases event with
  | put db key entry => exact inOrder_other away _
  | remove db key => exact inOrder_other away _

theorem Mirrors.step (formed : ∀ event ∈ log, event.Formed) (fits : ∀ event ∈ log, FitsEvent event)
    (genuine : Genuine start log delivery.1) (live : replica.FindsLive delivery) :
    ∃ count, Mirrors start origin log count (replica.apply delivery.1 delivery.2).2 := by
  obtain ⟨frame, now⟩ := delivery
  cases genuine with
  | @logged index event found =>
    by_cases next : index = count
    · subst next
      have member := mem_of_getElem? found
      cases event with
      | put db key entry =>
        exact ⟨_, mirrors.put found (formed _ member) (fits _ member) now⟩
      | remove db key =>
        exact ⟨_, mirrors.del found (live (by rw [mirrors.applied]))⟩
    · exact ⟨count, (apply_frameOf_other mirrors.applied next).symm ▸ mirrors⟩
  | _ => exact ⟨count, mirrors⟩

theorem Mirrors.follow (formed : ∀ event ∈ log, event.Formed) (fits : ∀ event ∈ log, FitsEvent event)
    (genuine : ∀ delivery ∈ deliveries, Genuine start log delivery.1)
    (live : Throughout FindsLive replica deliveries) :
    ∃ count, Mirrors start origin log count (replica.follow deliveries) := by
  induction deliveries generalizing count replica with
  | nil => exact ⟨count, mirrors⟩
  | cons delivery deliveries ih =>
    obtain ⟨reached, next⟩ :=
      mirrors.step formed fits (genuine delivery mem_cons_self) live.1
    exact ih next (fun other member => genuine other (mem_cons_of_mem _ member)) live.2

/-- A delete that finds its key due leaves it resident. -/
private theorem resident_of_due (found : log[count]? = some event)
    (due : ¬replica.FindsLive (frameOf start count event, now)) :
    ∃ place, (valuesAfter origin log (count + 1) place).isSome = false ∧
      ((replica.apply (frameOf start count event) now).2.store.values place).isSome = true := by
  cases event with
  | put db key entry => exact absurd trivial due
  | remove db key =>
    have present : 0 < replica.store.databases := mirrors.databases ▸ mirrors.present
    have expired : ∃ entry, replica.store.find (replica.store.dbIndex db) key = some entry ∧
        entry.isExpired now = true := by
      by_contra none
      push Not at none
      exact due fun _ entry held => Bool.eq_false_iff.mpr (none entry held)
    obtain ⟨entry, held, passed⟩ := expired
    have kept : (replica.store.delete db key now).2 = replica.store := by
      rcases delete_passive present mirrors.passive db key now with
        ⟨_, _, _, kept⟩ | ⟨live, -⟩
      · exact kept
      · rw [live entry held] at passed
        cases passed
    refine ⟨(replica.store.dbIndex db, key), ?_, ?_⟩
    · rw [valuesAfter_succ found]
      have index : replica.store.dbIndex db = min db (origin.databases - 1) := by
        rw [← mirrors.databases]
        rfl
      rw [index]
      exact congrArg Option.isSome (Change.apply_key _ ((WriteEvent.remove db key).valued _))
    · rw [mirrors.apply_remove]
      rw [kept, isSome_values, held]
      rfl

end

variable [EvictionPolicy E]

/-- The log of a run gives its resident values, which are well formed. -/
private theorem exists_log (present : 0 < origin.databases) (formed : origin.Formed)
    (observing : origin.observed = some []) (regular : ∀ op ∈ ops, op.Regular)
    (logged : (run origin ops).observed = some log) :
    (run origin ops).values = Change.replay origin.values (log.map (·.valued origin.databases)) ∧
      (∀ event ∈ log, event.Formed) ∧ (run origin ops).Formed := by
  obtain ⟨events, valued⟩ := (moves_run present regular).valued not_false present
  have same : events = log := by
    have heard := valued.observed
    rw [logged, observing] at heard
    exact (Option.some.inj heard).symm
  subst same
  obtain ⟨shaped, images⟩ := valued.formed trivial formed
  exact ⟨valued.values, images, shaped⟩

/-- What a passive replica holds after any number of deliveries is what its primary held after as
many writes: the same keys, and so as many and charged alike, as long as no delete finds its key
due by the clock of the replica; and that is exactly when a further delivery keeps it so. -/
theorem residents_follow {origin : ShardStore E} {replica : Replica F}
    (paired : Paired origin replica.store) (observing : origin.observed = some [])
    {ops : List Op} (regular : ∀ op ∈ ops, op.Regular) {log : List WriteEvent}
    (logged : (run origin ops).observed = some log) (fits : ∀ event ∈ log, FitsEvent event)
    {deliveries : List (Frame × ℕ)}
    (genuine : ∀ delivery ∈ deliveries, Genuine replica.applied log delivery.1)
    (live : Throughout FindsLive replica deliveries) :
    ∃ count ≤ log.length, (replica.follow deliveries).applied = replica.applied + count ∧
      (replica.follow deliveries).store.values = valuesAfter origin log count ∧
      (∀ before after, ops = before ++ after → (run origin before).observed = some (log.take count) →
        (∀ idx key, ((replica.follow deliveries).store.find idx key).isSome =
          ((run origin before).find idx key).isSome) ∧
        (∀ db, (replica.follow deliveries).store.dbLen db = (run origin before).dbLen db) ∧
        (replica.follow deliveries).store.usedMemory = (run origin before).usedMemory) ∧
      ∀ event now, log[count]? = some event → ((∀ place, (((replica.follow deliveries).apply
            (frameOf replica.applied count event) now).2.store.values place).isSome =
          (valuesAfter origin log (count + 1) place).isSome) ↔
            (replica.follow deliveries).FindsLive (frameOf replica.applied count event, now)) := by
  obtain ⟨-, formed, -⟩ := exists_log paired.present paired.formed.1 observing regular logged
  have mirrors : Mirrors replica.applied origin log 0 replica :=
    { applied := rfl
      within := Nat.zero_le _
      present := paired.present
      databases := paired.databases
      passive := paired.passive
      formed := paired.formed.2
      accounted := paired.accounted.2
      values := paired.values }
  obtain ⟨count, reached⟩ := mirrors.follow formed fits genuine live
  refine ⟨count, reached.within, reached.applied, reached.values, ?_, ?_⟩
  · rintro before after rfl halfway
    have early : ∀ op ∈ before, op.Regular := fun op member =>
      regular op (mem_append_left after member)
    obtain ⟨values, -, shaped⟩ :=
      exists_log paired.present paired.formed.1 observing early halfway
    have moves := moves_run paired.present early
    have alike : (replica.follow deliveries).store.values = (run origin before).values := by
      rw [reached.values, values]
      rfl
    have databases : (replica.follow deliveries).store.databases = (run origin before).databases :=
      reached.databases.trans moves.kept.databases.symm
    refine ⟨fun idx key => ?_, dbLen_eq alike databases, ?_⟩
    · rw [← isSome_values, alike, isSome_values]
    · have charged : (run origin before).Accounted :=
        moves.accounted paired.present paired.accounted.1
      exact reached.accounted.trans ((weight_eq reached.formed shaped alike databases).trans charged.symm)
  · intro event now found
    constructor
    · intro agree
      by_contra due
      obtain ⟨place, gone, stays⟩ := resident_of_due reached found due
      rw [agree place, gone] at stays
      cases stays
    · intro live place
      have member := mem_of_getElem? found
      have next : Mirrors replica.applied origin log (count + 1)
          ((replica.follow deliveries).apply (frameOf replica.applied count event) now).2 := by
        cases event with
        | put db key entry => exact reached.put found (formed _ member) (fits _ member) now
        | remove db key => exact reached.del found (live (by rw [reached.applied]))
      rw [next.values]

def emptyReplica : Replica NullEviction :=
  ⟨{ withHooks 2 {} with passive := true }, 0⟩

private theorem paired_emptyReplica : Paired watchedPair emptyReplica.store where
  present := by decide
  databases := rfl
  passive := rfl
  formed := by
    refine ⟨fun place entry stored => ?_, fun place entry stored => ?_⟩
    · have empty := contents_withHooks 2 (⟨⟩ : NullEviction) place
      exact absurd (empty.symm.trans stored) (by simp)
    · have empty := contents_withHooks 2 (⟨⟩ : NullEviction) place
      exact absurd (empty.symm.trans stored) (by simp)
  accounted := ⟨rfl, rfl⟩
  values := rfl

/-- A key is written with a deadline and deleted once that has passed. -/
def briefKey : List Op := [.upsert 0 [97] (.bytes [1]) (.set 9) 3, .delete 0 [97] 20]

def briefLog : List WriteEvent :=
  [.put 0 [97] ⟨[97], .str .embStr [1], some 9, 0⟩, .remove 0 [97]]

private theorem regular_briefKey : ∀ op ∈ briefKey, op.Regular := by
  intro op member
  simp only [briefKey, mem_cons, not_mem_nil, or_false] at member
  rcases member with rfl | rfl
  · exact ⟨trivial, (fun number same => by cases same), trivial⟩
  · exact ⟨trivial, trivial, trivial⟩

private theorem fits_briefLog : ∀ event ∈ briefLog, FitsEvent event := by
  intro event member
  simp only [briefLog, mem_cons, not_mem_nil, or_false] at member
  rcases member with rfl | rfl
  · refine ⟨by decide, by decide, ?_⟩
    have short : FitsBytes [1] := by decide
    exact short
  · trivial

def promptDeliveries : List (Frame × ℕ) :=
  [(frameOf 0 0 (briefLog[0]), 4), (frameOf 0 1 (briefLog[1]), 9)]

theorem residents_follow_promptDeliveries :
    (∀ idx key, ((emptyReplica.follow promptDeliveries).store.find idx key).isSome =
      ((run watchedPair briefKey).find idx key).isSome) ∧
    (emptyReplica.follow promptDeliveries).store.usedMemory = (run watchedPair briefKey).usedMemory := by
  have genuine : ∀ delivery ∈ promptDeliveries, Genuine emptyReplica.applied briefLog delivery.1 := by
    intro delivery member
    simp only [promptDeliveries, mem_cons, not_mem_nil, or_false] at member
    rcases member with rfl | rfl
    · exact .logged (rfl : briefLog[0]? = some (briefLog[0]))
    · exact .logged (rfl : briefLog[1]? = some (briefLog[1]))
  have live : Throughout FindsLive emptyReplica promptDeliveries := by
    refine ⟨trivial, fun _ entry held => ?_, trivial⟩
    cases held
    decide
  obtain ⟨count, -, applied, -, boundary, -⟩ := residents_follow paired_emptyReplica rfl
    regular_briefKey (rfl : _ = some briefLog) fits_briefLog genuine live
  have both : count = 2 := by
    exact (Nat.zero_add count ▸ applied).symm
  subst both
  obtain ⟨residents, -, used⟩ := boundary briefKey [] rfl (by decide)
  exact ⟨residents, used⟩

/-- The same writes, delivered once the key is due by the clock of the replica: the primary
holds nothing, and the replica holds the key. -/
theorem resident_after_late_delete :
    let replica := emptyReplica.follow [(frameOf 0 0 (briefLog[0]), 20), (frameOf 0 1 (briefLog[1]), 20)]
    (run watchedPair briefKey).observed = some briefLog ∧ replica.applied = 2 ∧
      ((run watchedPair briefKey).find 0 [97]).isSome = false ∧ (replica.store.find 0 [97]).isSome = true ∧
      replica.store.usedMemory ≠ (run watchedPair briefKey).usedMemory := by
  decide

end Replica

end IronCache.Repl
