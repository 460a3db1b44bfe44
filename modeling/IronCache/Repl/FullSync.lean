import IronCache.Lib.Copying
import IronCache.Repl.Stream
import IronCache.Store.Scan

/-!
# The full sync

The full sync (`fullsync.rs`) as a copy taken while the primary goes on changing.
-/

namespace IronCache.Repl

open Store Codec
open ShardStore

def syncFrames (entries : List SnapshotEntry) : List Frame :=
  entries.map fun entry => .syncKv entry.1 entry.2.1 (encodeKvobj entry.2.2)

/-- Where a replica is: before the sync, in it with the store loaded so far, or in the tail. A
detached one has to attach first. -/
inductive Receiver (F : Type) where
  | waiting
  | loading (store : ShardStore F)
  | tailing (replica : Replica F)
  | detached

namespace Receiver

variable {F : Type} [EvictionHook F]

/-- One frame for `receive_full_sync`, which ends with the sync. -/
def load (fresh : ShardStore F) (receiver : Receiver F) (frame : Frame) : Receiver F :=
  match receiver, frame with
  | .tailing replica, _ => .tailing replica
  | .detached, _ => .detached
  | _, .fullSync _ _ => .loading fresh
  | .waiting, .syncKv _ _ _ | .waiting, .syncEnd _ => .detached
  | .loading store, .syncKv db _ kvobjBytes =>
    match decodeKvobj kvobjBytes with
    | some object => .loading (store.insertObject db object)
    | none => .detached
  | .loading store, .syncEnd endOffset => .tailing ⟨{ store with passive := true }, endOffset⟩
  | receiver, _ => receiver

/-- One frame: a gap in the tail sends the replica back to the sync. -/
def receive (fresh : ShardStore F) (receiver : Receiver F) (frame : Frame) (now : ℕ) : Receiver F :=
  match receiver with
  | .tailing replica =>
    match replica.apply frame now with
    | (.gap, _) => .detached
    | (_, next) => .tailing next
  | _ => receiver.load fresh frame

theorem load_tailing (fresh : ShardStore F) (replica : Replica F) (frames : List Frame) :
    frames.foldl (load fresh) (.tailing replica) = .tailing replica := by
  induction frames with
  | nil => rfl
  | cons frame frames ih => exact ih

theorem load_detached (fresh : ShardStore F) (frames : List Frame) :
    frames.foldl (load fresh) .detached = .detached := by
  induction frames with
  | nil => rfl
  | cons frame frames ih => exact ih

/-- A receiver that will be loading is not in the tail, so that a frame is loaded. -/
theorem receive_of_loads {fresh store : ShardStore F} {receiver : Receiver F} {frames : List Frame}
    (loads : frames.foldl (load fresh) receiver = .loading store) (frame : Frame) (now : ℕ) :
    receiver.receive fresh frame now = receiver.load fresh frame := by
  cases receiver with
  | tailing replica =>
    rw [load_tailing] at loads
    cases loads
  | _ => rfl

end Receiver

def FitsStore (store : ShardStore E) : Prop :=
  ∀ place entry, store.contents place = some entry → FitsObject entry.toKvobj

theorem FitsStore.find (fits : FitsStore store) (found : store.find idx key = some entry) :
    FitsObject entry.toKvobj := by
  have within := fits (idx, key) entry.bare (by unfold contents; rw [found]; rfl)
  exact ⟨within.key, within.deadline, within.value⟩

theorem FitsStore.replayed (fits : FitsStore store)
    (written : next.contents = store.replayEvents events) (new : ∀ event ∈ events, FitsEvent event) :
    FitsStore next := by
  intro place entry stored
  rw [written] at stored
  rcases Change.of_replay_eq_some stored with before | put
  · exact fits place entry before
  obtain ⟨event, member, same⟩ := List.mem_map.mp put
  cases event with
  | put db key image =>
    cases same
    have within : FitsObject image.toKvobj := new _ member
    exact ⟨within.key, within.deadline, within.value⟩
  | remove db key => cases same

variable {E F : Type} [EvictionPolicy F]

theorem insertObject_decoded {store : ShardStore F} (present : 0 < store.databases) {key : Bytes}
    {entry : Entry} (formed : entry.Formed key) (fits : FitsObject entry.toKvobj) :
    ∃ object image, decodeKvobj (encodeKvobj entry.toKvobj) = some object ∧
      image.reading = entry.reading ∧ ShardStore.Kept store (store.insertObject db object) ∧
      (store.insertObject db object).contents =
        Function.update store.contents (store.dbIndex db, key) (some image) := by
  obtain ⟨object, decoded, shaped, alike⟩ := exists_decoded formed fits
  have moves : ShardStore.Moves Op.funnel store (store.insertObject db object) :=
    moves_insertObject trivial fun _ => shaped.2
  obtain ⟨image, bare, traced⟩ := traced_putObject present db object.key (.fromKvobj object)
  refine ⟨object, image.bare, decoded, ?_, moves.kept, ?_⟩
  · rw [bare]
    exact alike
  · have named : object.key = key := shaped.1
    rw [← named]
    exact traced.contents

def loadAll (entries : List SnapshotEntry) (store : ShardStore F) : Option (ShardStore F) :=
  match entries with
  | [] => some store
  | (db, _, object) :: entries =>
    match decodeKvobj (encodeKvobj object) with
    | some object => loadAll entries (store.insertObject db object)
    | none => none

/-- Any receiver that takes the frames of a snapshot one by one into a store. -/
theorem foldl_syncFrames (holding : ShardStore F → ρ)
    (takes : ∀ store db key kvobjBytes object, decodeKvobj kvobjBytes = some object →
      receive (holding store) (.syncKv db key kvobjBytes) = holding (store.insertObject db object))
    (loaded : loadAll entries store = some next) :
    (syncFrames entries).foldl receive (holding store) = holding next := by
  induction entries generalizing store with
  | nil =>
    cases loaded
    rfl
  | cons entry entries ih =>
    obtain ⟨db, key, object⟩ := entry
    unfold loadAll at loaded
    split at loaded
    · rename_i read decoded
      refine Eq.trans ?_ (ih loaded)
      exact congrArg ((syncFrames entries).foldl receive)
        (takes store db key (encodeKvobj object) read decoded)
    · cases loaded

theorem Receiver.load_loading (fresh store : ShardStore F) (db : ℕ) (key : Bytes)
    (decoded : decodeKvobj kvobjBytes = some object) :
    Receiver.load fresh (.loading store) (.syncKv db key kvobjBytes) =
      .loading (store.insertObject db object) := by
  unfold Receiver.load
  dsimp only
  rw [decoded]

variable {primary : ShardStore E}

/-- Entries of the primary are loaded each as the primary has it, and nothing else changes. -/
private theorem exists_loadAll (formed : primary.Formed) (fits : FitsStore primary)
    {entries : List SnapshotEntry} (genuine : ∀ db key object, (db, key, object) ∈ entries →
      ∃ entry, primary.find db key = some entry ∧ object = entry.toKvobj)
    {store : ShardStore F} (count : store.databases = primary.databases) :
    ∃ next, loadAll entries store = some next ∧ ShardStore.Kept store next ∧
      (∀ place object, (place.1, place.2, object) ∈ entries →
        next.readings place = primary.readings place) ∧
      ∀ place, (∀ object, (place.1, place.2, object) ∉ entries) →
        next.contents place = store.contents place := by
  induction entries generalizing store with
  | nil =>
    exact ⟨store, rfl, .refl store, fun _ _ member => absurd member List.not_mem_nil, fun _ _ => rfl⟩
  | cons first entries ih =>
    obtain ⟨db, key, object⟩ := first
    obtain ⟨entry, found, rfl⟩ := genuine db key object List.mem_cons_self
    have inside : db < store.databases := by
      have held : (primary.contents (db, key)).isSome := by
        unfold contents
        rw [found]
        rfl
      exact count ▸ inside_of_contents held
    obtain ⟨object, image, decoded, alike, same, written⟩ :=
      insertObject_decoded (Nat.zero_lt_of_lt inside) (ShardStore.Formed.find formed found) (fits.find found)
    rw [show store.dbIndex db = db from min_eq_left (Nat.le_sub_one_of_lt inside)] at written
    obtain ⟨next, loaded, kept, taken, still⟩ :=
      ih (fun db key object member =>
        genuine db key object (List.mem_cons_of_mem _ member)) (same.databases.trans count)
    refine ⟨next, ?_, same.trans kept, fun place object member => ?_, fun place absent => ?_⟩
    · unfold loadAll
      rw [decoded]
      exact loaded
    · by_cases later : ∃ object, (place.1, place.2, object) ∈ entries
      · obtain ⟨other, listed⟩ := later
        exact taken place other listed
      push Not at later
      rcases List.mem_cons.mp member with here | member
      · cases here
        rw [readings_of_find found]
        unfold readings
        rw [still _ later, written, Function.update_self, Option.map_some, alike]
      · exact absurd member (later object)
    · have away : place ≠ (db, key) := by
        rintro rfl
        exact absent _ List.mem_cons_self
      rw [still place fun object member => absent object (List.mem_cons_of_mem _ member), written,
        Function.update_of_ne away]

/-- The entries that a transfer admits of a chunk. -/
def admitted (admits : Bytes → Bool) (entries : List SnapshotEntry) : List SnapshotEntry :=
  entries.filter fun entry => admits entry.2.1

/-- A chunk is loaded into a copy of the keys that the transfer admits. -/
theorem copying_chunk (admits : Bytes → Bool) {now time : ℕ}
    (formed : primary.Formed) (fits : FitsStore primary) {base aim : ℕ × Bytes → Option Reading}
    {journal : List (Change (ℕ × Bytes) Reading)} {cursor : SnapshotCursor} {store : ShardStore F}
    (count : store.databases = primary.databases)
    (copying : Copying (unexpired time) (unexpired now · = none) base aim primary.readings
      store.readings journal fun place => cursor.Passed place ∧ admits place.2 = true) (max : ℕ) :
    ∃ next, loadAll (admitted admits (primary.snapshotChunk cursor max now).1) store = some next ∧
      ShardStore.Kept store next ∧
      (∀ place, admits place.2 = false → next.contents place = store.contents place) ∧
      Copying (unexpired time) (unexpired now · = none) base aim primary.readings next.readings
        journal fun place =>
          (primary.snapshotChunk cursor max now).2.Passed place ∧ admits place.2 = true := by
  have walked := walked_snapshotChunk cursor max now primary
  have listed : ∀ db key object, (db, key, object) ∈
      admitted admits (primary.snapshotChunk cursor max now).1 ↔
        (db, key, object) ∈ (primary.snapshotChunk cursor max now).1 ∧ admits key = true :=
    fun db key object => List.mem_filter
  obtain ⟨next, loaded, kept, taken, still⟩ := exists_loadAll formed fits (fun db key object member => by
      obtain ⟨-, entry, found, -, same⟩ :=
        (walked.listed db key object).mp ((listed db key object).mp member).1
      exact ⟨entry, found, same⟩) count
  have others : ∀ place, admits place.2 = false → next.contents place = store.contents place := by
    intro place refused
    refine still place fun object member => ?_
    rw [((listed place.1 place.2 object).mp member).2] at refused
    cases refused
  have unmoved : ∀ place, (∀ object, (place.1, place.2, object) ∉
      admitted admits (primary.snapshotChunk cursor max now).1) →
        next.readings place = store.readings place := fun place absent =>
    congrArg (Option.map Entry.reading) (still place absent)
  refine ⟨next, loaded, kept, others, copying.pass ?_ (fun place stays => ?_) fun place beyond before => ?_⟩
  · exact fun place passed => ⟨walked.forward place passed.1, passed.2⟩
  · refine unmoved place fun object member => ?_
    obtain ⟨shipped, admits⟩ := (listed place.1 place.2 object).mp member
    obtain ⟨⟨ahead, behind⟩, -⟩ := (walked.listed place.1 place.2 object).mp shipped
    exact stays.elim (fun passed => ahead passed.1) fun absent => absent ⟨behind, admits⟩
  · by_cases shipped : ∃ object, (place.1, place.2, object) ∈
        admitted admits (primary.snapshotChunk cursor max now).1
    · obtain ⟨object, member⟩ := shipped
      refine .inl ⟨?_, taken place object member⟩
      obtain ⟨-, entry, found, live, -⟩ :=
        (walked.listed place.1 place.2 object).mp ((listed _ _ _).mp member).1
      have shown : entry.reading.isExpired now = false := live
      rw [readings_of_find found]
      simp [unexpired, shown]
    -- What the chunk passes over is absent or due.
    push Not at shipped
    refine .inr ⟨?_, unmoved place shipped⟩
    cases found : primary.find place.1 place.2 with
    | none =>
      unfold readings contents
      rw [found]
      rfl
    | some entry =>
      have due : entry.reading.isExpired now = true := by
        by_contra live
        have ahead : ¬cursor.Passed place := fun passed => before ⟨passed, beyond.2⟩
        exact shipped _ ((listed _ _ _).mpr ⟨(walked.listed place.1 place.2 _).mpr
          ⟨⟨ahead, beyond.1⟩, entry, found, Bool.eq_false_iff.mpr live, rfl⟩, beyond.2⟩)
      rw [readings_of_find found]
      simp [unexpired, due]

end IronCache.Repl
