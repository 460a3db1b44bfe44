import IronCache.Repl.FullSync
import IronCache.Repl.Kept
import IronCache.Repl.Replica

/-!
# A store that feeds others

A store whose observer feeds the replication ring.
-/

namespace IronCache.Repl

open Store
open List

section Log

variable {E : Type}

def heard (store : ShardStore E) : List WriteEvent := store.observed.getD []

/-- What the observer is told of a call. -/
def news [EvictionPolicy E] (store : ShardStore E) (op : Op) : List WriteEvent :=
  (heard (op.step store)).drop (heard store).length

def ReplRing.pushAll (events : List WriteEvent) (ring : ReplRing) : ReplRing :=
  events.foldl (fun ring event => ring.push (observe event)) ring

/-- The store can be shipped, and so can all that its observer has heard. -/
structure Recorded (store : ShardStore E) : Prop where
  present : 0 < store.databases
  formed : store.Formed
  fits : FitsStore store
  observing : store.observed = some (heard store)
  images : ∀ event ∈ heard store, event.Formed ∧ FitsEvent event

/-- A step to another such store, with the events that lead there. -/
structure Extends (store next : ShardStore E) (events : List WriteEvent) : Prop where
  recorded : Recorded next
  heard : heard next = heard store ++ events
  databases : next.databases = store.databases
  readings : next.readings = Change.replay store.readings (events.map (·.seen store.databases))

variable {store : ShardStore E} {start offset : ℕ}

theorem Recorded.write [EvictionPolicy E] (recorded : Recorded store) (honest : op.Honest)
    (formed : op.WellFormed) (observable : op.Observable store)
    (fits : ∀ event ∈ news store op, FitsEvent event) : Extends store (op.step store) (news store op) := by
  obtain ⟨events, reported, images⟩ := Op.exists_reported_formed recorded.present honest
    (fun _ : True => formed) observable
  obtain ⟨shaped, images⟩ := images trivial recorded.formed
  have told : (op.step store).observed = some (heard store ++ events) := by
    rw [reported.observed, recorded.observing]
    rfl
  have longer : heard (op.step store) = heard store ++ events := by
    unfold heard at told ⊢
    rw [told]
    rfl
  have same : news store op = events := by
    unfold news
    rw [longer]
    exact drop_left
  rw [same] at fits ⊢
  refine ⟨⟨?_, shaped, recorded.fits.replayed reported.contents fits, ?_, ?_⟩, longer, reported.databases, ?_⟩
  · exact reported.databases.symm ▸ recorded.present
  · rw [longer]
    exact told
  · rw [longer]
    intro event member
    rcases mem_append.mp member with old | new
    · exact recorded.images event old
    · exact ⟨images event new, fits event new⟩
  · funext place
    unfold ShardStore.readings
    rw [reported.contents]
    unfold ShardStore.replayEvents
    rw [Change.replay_map, map_map]
    rfl

/-- The writes above an offset, where the log begins above `start`. -/
def pending (start : ℕ) (store : ShardStore E) (offset : ℕ) : List (Change (ℕ × Bytes) Reading) :=
  ((heard store).drop (offset - start)).map (·.seen store.databases)

theorem pending_end : pending start store (start + (heard store).length) = [] := by
  unfold pending
  rw [Nat.add_sub_cancel_left, drop_length]
  rfl

theorem pending_next (above : start ≤ offset) (found : (heard store)[offset - start]? = some event) :
    pending start store offset =
      event.seen store.databases :: pending start store (offset + 1) := by
  unfold pending
  rw [drop_eq_getElem?_toList_append, found, Nat.sub_add_comm above]
  rfl

theorem Extends.pending (extends_ : Extends store later events)
    (below : offset ≤ start + (Repl.heard store).length) : pending start later offset =
      Repl.pending start store offset ++ events.map (·.seen store.databases) := by
  unfold Repl.pending
  rw [extends_.heard, extends_.databases, drop_append_of_le_length (by omega), map_append]

theorem pending_inside (present : 0 < store.databases)
    (member : change ∈ pending start store offset) : change.key.1 < store.databases := by
  obtain ⟨event, -, rfl⟩ := mem_map.mp member
  exact event.seen_inside present

/-- Outside the tables there is nothing on either side, and no write. -/
theorem follows_outside {F : Type} {copy : ShardStore F} (present : 0 < store.databases)
    (count : copy.databases = store.databases) {place : ℕ × Bytes} (outside : ¬place.1 < store.databases) :
    Follows see copy.readings store.readings (pending start store offset) place := by
  have untouched : ∀ change ∈ pending start store offset, change.key ≠ place := by
    rintro change member rfl
    exact outside (pending_inside present member)
  unfold Follows
  rw [Change.replay_of_untouched _ untouched, ShardStore.readings_outside outside]
  refine congrArg see (ShardStore.readings_outside ?_)
  rwa [count]

end Log

/-- A write of the log as the ring carries it. -/
def Logged (start : ℕ) (log : List WriteEvent) (op : StreamOp) : Prop :=
  ∃ index event, log[index]? = some event ∧ op = (observe event).at (start + index + 1)

variable {start : ℕ} {log : List WriteEvent}

variable {op : StreamOp}

theorem Logged.append (logged : Logged start log op) (more : List WriteEvent) :
    Logged start (log ++ more) op := by
  obtain ⟨index, event, found, rfl⟩ := logged
  have inside : index < log.length := (List.getElem?_eq_some_iff.mp found).1
  exact ⟨index, event, by rwa [List.getElem?_append_left inside], rfl⟩

theorem Genuine.append (genuine : Genuine start log frame) (more : List WriteEvent) :
    Genuine start (log ++ more) frame := by
  cases genuine with
  | @logged index event found =>
    have inside : index < log.length := (List.getElem?_eq_some_iff.mp found).1
    exact .logged (by rwa [List.getElem?_append_left inside])
  | conf => exact .conf
  | ping => exact .ping
  | fullSync => exact .fullSync
  | syncKv => exact .syncKv
  | syncEnd => exact .syncEnd
  | importReq => exact .importReq

theorem Logged.genuine (logged : Logged start log op) : Genuine start log (opToFrame op) := by
  obtain ⟨index, event, found, rfl⟩ := logged
  exact .logged found

/-- The head of the ring is the end of the log, and all it keeps is from the log. -/
structure ReplRing.Carries (start : ℕ) (log : List WriteEvent) (ring : ReplRing) : Prop where
  head : ring.head = start + log.length
  keeps : ring.Keeps (Logged start log)

theorem ReplRing.Carries.pushAll {ring : ReplRing} (carries : ring.Carries start log)
    (events : List WriteEvent) : (ring.pushAll events).Carries start (log ++ events) := by
  induction events generalizing log ring with
  | nil =>
    rw [append_nil]
    exact carries
  | cons event events ih =>
    have one : (ring.push (observe event)).Carries start (log ++ [event]) := by
      constructor
      · rw [ReplRing.head_push, carries.head, length_append]
        rfl
      · refine (carries.keeps.imp fun op logged => logged.append [event]).push ?_
        exact ⟨log.length, event, getElem?_concat_length, by rw [carries.head]⟩
    have rest := ih one
    rwa [append_assoc] at rest

/-- What the source does for a connection: it pulls the chunks of a full sync, cut at a head of the
ring and begun at a time, or drains the tail from a cursor. -/
inductive Feed where
  | syncing (cut now : ℕ) (cursor : SnapshotCursor)
  | tailing (cursor : ℕ)
deriving DecidableEq

def afterPass (shipment : Shipment) : Option Feed :=
  match shipment.outcome with
  | .shipped _ => some (.tailing shipment.cursor)
  | .resyncNeeded | .linkDown => none

theorem afterPass_ne (shipment : Shipment) (cut now : ℕ) (cursor : SnapshotCursor) :
    afterPass shipment ≠ some (.syncing cut now cursor) := by
  unfold afterPass
  split <;> simp

end IronCache.Repl
