import IronCache.Repl.Source

/-!
# A replica converges

Whenever the replica has applied the head of the ring, it is read as its primary is.
-/

namespace IronCache.Repl

open Store
open ShardStore
open List
open Receiver

/-- The primary with its ring, the frames on the way, and the replica. -/
structure Replication (E F : Type) where
  primary : ShardStore E
  ring : ReplRing
  feed : Option Feed
  frames : List Frame
  replica : Receiver F

inductive Replication.Action where
  | write (op : Op)
  | attach (now : ℕ)
  | chunk (max : ℕ)
  | finish
  | drain (send : StreamOp → Bool) (max : ℕ)
  | ack (offset : ℕ)
  | deliver (now : ℕ)

section Stages

variable {E F : Type}

/-- The replica leads to the primary by way of the writes it has not applied, as read at a time or
later. -/
structure Tails (time start : ℕ) (primary : ShardStore E) (replica : Replica F) : Prop where
  databases : replica.store.databases = primary.databases
  passive : replica.store.passive = true
  above : start ≤ replica.applied
  below : replica.applied ≤ start + (heard primary).length
  follows : ∀ place, Follows (unexpired time) replica.store.readings primary.readings
    (pending start primary replica.applied) place

variable {time start : ℕ} {primary later : ShardStore E} {events : List WriteEvent} {replica : Replica F}

theorem Tails.extend (tails : Tails time start primary replica)
    (written : Extends primary later events) : Tails time start later replica where
  databases := tails.databases.trans written.databases.symm
  passive := tails.passive
  above := tails.above
  below := by
    rw [written.heard, length_append]
    exact tails.below.trans (by omega)
  follows := fun place => by
    rw [written.pending tails.below, written.readings]
    exact (tails.follows place).extend _

/-- A replica that has applied the whole log is read like its primary. -/
theorem Tails.peek (tails : Tails time start primary replica)
    (caught : replica.applied = start + (heard primary).length) (db : ℕ) (key : Bytes) :
    replica.store.peek db key time = primary.peek db key time := by
  have index : replica.store.dbIndex db = primary.dbIndex db := by
    unfold dbIndex
    rw [show replica.store.dbs.length = primary.dbs.length from tails.databases]
  have follows := tails.follows (primary.dbIndex db, key)
  rw [caught, pending_end] at follows
  unfold ShardStore.peek
  rw [index]
  exact follows

/-- The store loaded so far copies the primary up to a cursor. -/
structure Syncs (time start : ℕ) (primary : ShardStore E) (cut now : ℕ) (cursor : SnapshotCursor)
    (store : ShardStore F) : Prop where
  databases : store.databases = primary.databases
  above : start ≤ cut
  below : cut ≤ start + (heard primary).length
  early : now ≤ time
  copying : ∃ base, Copying (unexpired time) (unexpired now · = none) base base primary.readings
    store.readings (pending start primary cut) fun place => cursor.Passed place ∧ true = true

variable {cut now : ℕ} {cursor : SnapshotCursor} {store : ShardStore F}

theorem Syncs.extend (syncs : Syncs time start primary cut now cursor store)
    (written : Extends primary later events) : Syncs time start later cut now cursor store where
  databases := syncs.databases.trans written.databases.symm
  above := syncs.above
  below := by
    rw [written.heard, length_append]
    exact syncs.below.trans (by omega)
  early := syncs.early
  copying := by
    obtain ⟨base, copying⟩ := syncs.copying
    refine ⟨base, ?_⟩
    rw [written.pending syncs.below, written.readings]
    exact copying.extend _

theorem Syncs.finish (syncs : Syncs time start primary cut now cursor store)
    (recorded : Recorded primary) (done : cursor.isDone primary.databases = true) :
    Tails time start primary ⟨{ store with passive := true }, cut⟩ := by
  obtain ⟨base, copying⟩ := syncs.copying
  refine ⟨syncs.databases, rfl, syncs.above, syncs.below, fun place => ?_⟩
  by_cases inside : place.1 < primary.databases
  · have follows := copying.behind place ⟨passed_of_isDone done inside, rfl⟩
    rwa [← copying.journalled] at follows
  · exact follows_outside recorded.present syncs.databases inside

theorem syncs_start {fresh : ShardStore F} (blank : ∀ place, fresh.contents place = none)
    (databases : fresh.databases = primary.databases) (early : now ≤ time) :
    Syncs time start primary (start + (heard primary).length) now .start fresh := by
  refine ⟨databases, Nat.le_add_right _ _, le_rfl, early, primary.readings, ?_⟩
  rw [pending_end]
  refine .start (fun _ _ => rfl) (fun place due => ?_)
    fun place passed => SnapshotCursor.not_passed_start passed.1
  rw [unexpired_eq_none early due]
  unfold readings
  rw [blank place]
  rfl

variable [EvictionPolicy F]

theorem Syncs.chunk (syncs : Syncs time start primary cut now cursor store)
    (recorded : Recorded primary) (fresh : ShardStore F) (max : ℕ) :
    ∃ next, (syncFrames (primary.snapshotChunk cursor max now).1).foldl
        (load fresh) (.loading store) = .loading next ∧
      Syncs time start primary cut now (primary.snapshotChunk cursor max now).2 next := by
  obtain ⟨base, copying⟩ := syncs.copying
  obtain ⟨next, loaded, kept, -, further⟩ := copying_chunk (fun _ => true)
    recorded.formed recorded.fits syncs.databases copying max
  have whole : admitted (fun _ => true) (primary.snapshotChunk cursor max now).1 =
      (primary.snapshotChunk cursor max now).1 := filter_true _
  rw [whole] at loaded
  have taken := foldl_syncFrames loading (fun store db key _ _ => load_loading fresh store db key) loaded
  exact ⟨next, taken, kept.databases.trans syncs.databases, syncs.above,
    syncs.below, syncs.early, base, further⟩

/-- The next write is applied: what is read is what the write leaves, if not sooner due. -/
theorem Tails.next (tails : Tails time start primary replica) (recorded : Recorded primary)
    (found : (heard primary)[replica.applied - start]? = some event) (early : now ≤ time) :
    ∃ store, replica.apply (opToFrame ((observe event).at (replica.applied + 1))) now =
        (.applied (replica.applied + 1), ⟨store, replica.applied + 1⟩) ∧
      Tails time start primary ⟨store, replica.applied + 1⟩ := by
  have present : 0 < replica.store.databases := tails.databases ▸ recorded.present
  have within : replica.applied + 1 ≤ start + (heard primary).length := by
    have := (List.getElem?_eq_some_iff.mp found).1
    omega
  obtain ⟨formed, fits⟩ := recorded.images event (List.mem_of_getElem? found)
  have follows := tails.follows
  rw [pending_next tails.above found] at follows
  cases event with
  | put db key entry =>
    obtain ⟨object, image, decoded, alike, kept, written⟩ :=
      insertObject_decoded present formed fits
    refine ⟨replica.store.insertObject db object, ?_, ?_⟩
    · change replica.inOrder (replica.applied + 1) ((decodeKvobj (encodeKvobj entry.toKvobj)).map
        (replica.store.insertObject db ·)) = _
      rw [decoded]
      exact Replica.inOrder_next _ replica
    · refine ⟨kept.databases.trans tails.databases, kept.passive.trans tails.passive,
        tails.above.trans (Nat.le_succ _), within, fun place => (follows place).advance ?_⟩
      rw [readings_update written, Option.map_some, alike, ← tails.databases]
      rfl
  | remove db key =>
    have moves : ShardStore.Moves Op.funnel replica.store (replica.store.delete db key now).2 :=
      moves_delete trivial key now
    refine ⟨(replica.store.delete db key now).2, Replica.inOrder_next _ replica,
      moves.kept.databases.trans tails.databases, moves.kept.passive.trans tails.passive,
      tails.above.trans (Nat.le_succ _), within, fun place => (follows place).advance ?_⟩
    have gone : Change.apply replica.store.readings ((WriteEvent.remove db key).seen primary.databases) =
          Function.update replica.store.readings (replica.store.dbIndex db, key) none := by
      rw [← tails.databases]
      rfl
    rw [gone]
    rcases delete_passive present tails.passive db key now with
      ⟨entry, held, due, kept⟩ | ⟨-, removed⟩
    · -- A due entry stays, and nobody reads it.
      rw [kept]
      by_cases here : place = (replica.store.dbIndex db, key)
      · subst here
        rw [Function.update_self, readings_of_find held]
        refine unexpired_eq_none early ?_
        have hidden : entry.reading.isExpired now = true := due
        simp [unexpired, hidden]
      · rw [Function.update_of_ne here]
    · rw [readings_update removed]
      rfl

/-- A frame of the tail: the replica goes on, or has met a gap. -/
theorem Tails.receive (tails : Tails time start primary replica) (recorded : Recorded primary)
    (genuine : Genuine start (heard primary) frame) (early : now ≤ time) (fresh : ShardStore F) :
    Receiver.receive fresh (.tailing replica) frame now = .detached ∨
      ∃ next, Receiver.receive fresh (.tailing replica) frame now = .tailing next ∧
        Tails time start primary next := by
  cases genuine with
  | @logged index event found =>
    by_cases next : start + index = replica.applied
    · have here : (heard primary)[replica.applied - start]? = some event := by
        rw [← next, Nat.add_sub_cancel_left]
        exact found
      obtain ⟨store, applied, tailed⟩ := tails.next recorded here early
      refine .inr ⟨⟨store, replica.applied + 1⟩, ?_, tailed⟩
      unfold Receiver.receive frameOf
      dsimp only
      rw [next, applied]
    have since : replica.applied = start + (replica.applied - start) :=
      (Nat.add_sub_cancel' tails.above).symm
    have other : index ≠ replica.applied - start := fun same => next (same ▸ since.symm)
    have same : (replica.apply (frameOf start index event) now).2 = replica :=
      Replica.apply_frameOf_other since other
    unfold Receiver.receive
    dsimp only
    split
    · exact .inl rfl
    rename_i outcome other _ applied
    rw [applied] at same
    exact .inr ⟨replica, by rw [← same], tails⟩
  | _ => exact .inr ⟨replica, rfl, tails⟩

end Stages

namespace Replication

variable {E F : Type}

def NotSyncing (state : Replication E F) : Prop :=
  ∀ cut now cursor, state.feed ≠ some (.syncing cut now cursor)

/-- How far the replica has come: it has to attach, it loads the sync, the end of the sync is on
its way with more of the tail behind it, or it is in the tail. -/
inductive Stage [EvictionPolicy F] (fresh : ShardStore F) (time start : ℕ) (state : Replication E F) : Prop
  | detached (detached : state.replica = .detached) (fed : state.NotSyncing)
  | syncing {cut now : ℕ} {cursor : SnapshotCursor} {store : ShardStore F}
      (fed : state.feed = some (.syncing cut now cursor))
      (loads : state.frames.foldl (load fresh) state.replica = .loading store)
      (syncs : Syncs time start state.primary cut now cursor store)
  | ended {loads tail : List Frame} {cut : ℕ} {store : ShardStore F}
      (framed : state.frames = loads ++ .syncEnd cut :: tail)
      (loaded : loads.foldl (load fresh) state.replica = .loading store)
      (tails : Tails time start state.primary ⟨{ store with passive := true }, cut⟩)
      (genuine : ∀ frame ∈ tail, Genuine start (heard state.primary) frame) (fed : state.NotSyncing)
  | tailing {follower : Replica F} (tailing : state.replica = .tailing follower)
      (tails : Tails time start state.primary follower)
      (genuine : ∀ frame ∈ state.frames, Genuine start (heard state.primary) frame) (fed : state.NotSyncing)

variable [EvictionPolicy E] [EvictionPolicy F]

def step (replid : Bytes) (fresh : ShardStore F) (state : Replication E F) : Action → Replication E F
  | .write op =>
    { state with
      primary := op.step state.primary
      ring := state.ring.pushAll (news state.primary op) }
  | .attach now =>
    { state with
      feed := some (.syncing state.ring.head now .start)
      frames := [.fullSync replid state.ring.head]
      replica := .waiting }
  | .chunk max =>
    match state.feed with
    | some (.syncing cut now cursor) =>
      if cursor.isDone state.primary.databases then state
      else
        let (entries, next) := state.primary.snapshotChunk cursor max now
        { state with
          feed := some (.syncing cut now next)
          frames := state.frames ++ syncFrames entries }
    | _ => state
  | .finish =>
    match state.feed with
    | some (.syncing cut _ cursor) =>
      if cursor.isDone state.primary.databases then
        { state with feed := some (.tailing cut), frames := state.frames ++ [.syncEnd cut] }
      else state
    | _ => state
  | .drain send max =>
    match state.feed with
    | some (.tailing cursor) =>
      let shipment := drainAndShip send state.ring cursor max
      { state with
        ring := shipment.ring
        feed := afterPass shipment
        frames := state.frames ++ shipment.frames.map opToFrame }
    | _ => state
  | .ack offset => { state with ring := state.ring.ack offset }
  | .deliver now =>
    match state.frames with
    | [] => state
    | frame :: frames =>
      { state with frames, replica := state.replica.receive fresh frame now }

def run (replid : Bytes) (fresh : ShardStore F) (state : Replication E F) (actions : List Action) :
    Replication E F :=
  actions.foldl (step replid fresh) state

/-- A property of each action in the state it is taken in. -/
def Throughout (replid : Bytes) (fresh : ShardStore F)
    (property : Replication E F → Action → Prop) : Replication E F → List Action → Prop
  | _, [] => True
  | state, action :: actions =>
    property state action ∧ Throughout replid fresh property (state.step replid fresh action) actions

/-- Writes are calls of the funnel with well-formed input, whose closures own up to their edits, and
small enough for the wire. -/
def Lawful (state : Replication E F) : Action → Prop
  | .write op => op.Regular ∧ ∀ event ∈ news state.primary op, FitsEvent event
  | _ => True

/-- A closure of `rmw` that answers `Mutated` leaves the deadline. -/
def LeavesDeadlines (state : Replication E F) : Action → Prop
  | .write op => op.LeavesDeadline state.primary
  | _ => True

def Action.clock : Action → ℕ
  | .attach now | .deliver now => now
  | _ => 0

variable {fresh : ShardStore F} {time start : ℕ} {state : Replication E F} {replid : Bytes}

/-- The primary with its ring, and how far its replica has come. -/
structure Sound (fresh : ShardStore F) (time start : ℕ) (state : Replication E F) : Prop where
  recorded : Recorded state.primary
  carries : state.ring.Carries start (heard state.primary)
  count : fresh.databases = state.primary.databases
  stage : Stage fresh time start state

theorem Sound.write (sound : Sound fresh time start state) (lawful : Lawful state (.write op))
    (leaves : op.LeavesDeadline state.primary) :
    Sound fresh time start (state.step replid fresh (.write op)) := by
  obtain ⟨regular, fits⟩ := lawful
  have keeps : op.KeepsTables state.primary := by
    have funnelled := regular.funnelled
    cases op <;> trivial
  have written := sound.recorded.write regular.honest regular.formed ⟨leaves, keeps⟩ fits
  have carries : (state.ring.pushAll (news state.primary op)).Carries start
      (heard (op.step state.primary)) := by
    rw [written.heard]
    exact sound.carries.pushAll _
  refine ⟨written.recorded, carries, sound.count.trans written.databases.symm, ?_⟩
  have still : ∀ frame, Genuine start (heard state.primary) frame →
      Genuine start (heard (op.step state.primary)) frame := by
    rw [written.heard]
    exact fun frame genuine => genuine.append _
  cases sound.stage with
  | detached detached fed => exact .detached detached fed
  | syncing fed loads syncs => exact .syncing fed loads (syncs.extend written)
  | ended framed loaded tails genuine fed =>
    exact .ended framed loaded (tails.extend written)
      (fun frame member => still frame (genuine frame member)) fed
  | tailing tailing tails genuine fed =>
    exact .tailing tailing (tails.extend written) (fun frame member => still frame (genuine frame member)) fed

variable {now : ℕ} {replica : Replica F}

theorem Sound.attach (sound : Sound fresh time start state)
    (blank : ∀ place, fresh.contents place = none) (early : now ≤ time) :
    Sound fresh time start (state.step replid fresh (.attach now)) := by
  refine ⟨sound.recorded, sound.carries, sound.count, .syncing rfl rfl ?_⟩
  rw [sound.carries.head]
  exact syncs_start blank sound.count early

omit [EvictionPolicy E] in
theorem Stage.syncs (stage : Stage fresh time start state)
    (fed : state.feed = some (.syncing cut now cursor)) :
    ∃ store, state.frames.foldl (load fresh) state.replica = .loading store ∧
      Syncs time start state.primary cut now cursor store := by
  cases stage with
  | syncing feeds loads syncs =>
    cases fed.symm.trans feeds
    exact ⟨_, loads, syncs⟩
  | detached _ idle => exact absurd fed (idle _ _ _)
  | ended _ _ _ _ idle => exact absurd fed (idle _ _ _)
  | tailing _ _ _ idle => exact absurd fed (idle _ _ _)

section

variable (sound : Sound fresh time start state)
include sound

theorem Sound.chunk (max : ℕ) : Sound fresh time start (state.step replid fresh (.chunk max)) := by
  unfold step
  dsimp only
  split
  · rename_i cut now cursor fed
    split
    · exact sound
    obtain ⟨store, loads, syncs⟩ := sound.stage.syncs fed
    obtain ⟨next, loaded, further⟩ := syncs.chunk sound.recorded fresh max
    refine ⟨sound.recorded, sound.carries, sound.count, .syncing rfl ?_ further⟩
    rw [foldl_append, loads, loaded]
  · exact sound

theorem Sound.finish : Sound fresh time start (state.step replid fresh .finish) := by
  unfold step
  dsimp only
  split
  · rename_i cut now cursor fed
    split
    · rename_i done
      obtain ⟨store, loads, syncs⟩ := sound.stage.syncs fed
      refine ⟨sound.recorded, sound.carries, sound.count, .ended rfl loads (syncs.finish sound.recorded done)
          (fun _ member => absurd member not_mem_nil) fun _ _ _ feeds => ?_⟩
      cases feeds
    · exact sound
  · exact sound

theorem Sound.drain (send : StreamOp → Bool) (max : ℕ) :
    Sound fresh time start (state.step replid fresh (.drain send max)) := by
  unfold step
  dsimp only
  split
  · rename_i cursor fed
    obtain ⟨keeps, shipped⟩ := sound.carries.keeps.drain send cursor max
    have genuine : ∀ frame ∈ (drainAndShip send state.ring cursor max).frames.map opToFrame,
        Genuine start (heard state.primary) frame := by
      intro frame member
      obtain ⟨op, sent, rfl⟩ := mem_map.mp member
      exact (shipped op sent).genuine
    have idle : ∀ cut now cursor, state.feed ≠ some (.syncing cut now cursor) := by
      rw [fed]
      simp
    refine ⟨sound.recorded, ⟨by simpa using sound.carries.head, keeps⟩, sound.count, ?_⟩
    cases sound.stage with
    | detached detached _ => exact .detached detached (afterPass_ne _)
    | syncing feeds _ _ => exact absurd feeds (idle _ _ _)
    | @ended loads tail cut store framed loaded tails before _ =>
      have longer : state.frames ++ (drainAndShip send state.ring cursor max).frames.map opToFrame =
          loads ++ .syncEnd cut ::
            (tail ++ (drainAndShip send state.ring cursor max).frames.map opToFrame) :=
        (congrArg (· ++ _) framed).trans (append_assoc _ _ _)
      refine .ended longer loaded tails (fun frame member => ?_) (afterPass_ne _)
      exact (mem_append.mp member).elim (before frame) (genuine frame)
    | tailing tailing tails before _ =>
      refine .tailing tailing tails (fun frame member => ?_) (afterPass_ne _)
      exact (mem_append.mp member).elim (before frame) (genuine frame)
  · exact sound

theorem Sound.ack (offset : ℕ) : Sound fresh time start (state.step replid fresh (.ack offset)) := by
  refine ⟨sound.recorded, ⟨sound.carries.head, sound.carries.keeps.ack offset⟩, sound.count, ?_⟩
  cases sound.stage with
  | detached detached fed => exact .detached detached fed
  | syncing fed loads syncs => exact .syncing fed loads syncs
  | ended framed loaded tails genuine fed => exact .ended framed loaded tails genuine fed
  | tailing tailing tails genuine fed => exact .tailing tailing tails genuine fed

theorem Sound.deliver (early : now ≤ time) :
    Sound fresh time start (state.step replid fresh (.deliver now)) := by
  unfold step
  dsimp only
  split
  · exact sound
  rename_i frame frames framed
  refine ⟨sound.recorded, sound.carries, sound.count, ?_⟩
  cases sound.stage with
  | detached detached fed =>
    refine .detached ?_ fed
    rw [detached]
    rfl
  | syncing fed loads syncs =>
    have loaded := receive_of_loads loads frame now
    refine .syncing fed ?_ syncs
    rw [framed] at loads
    rw [loaded]
    exact loads
  | @ended loads tail cut store sent loaded tails genuine fed =>
    have received := receive_of_loads loaded frame now
    rw [framed] at sent
    cases loads with
    | nil =>
      obtain ⟨rfl, rfl⟩ := List.cons.inj sent
      have loading : state.replica = .loading store := loaded
      refine .tailing ?_ tails genuine fed
      rw [received, loading]
      rfl
    | cons first loads =>
      obtain ⟨rfl, rfl⟩ := List.cons.inj sent
      refine .ended rfl ?_ tails genuine fed
      rw [received]
      exact loaded
  | @tailing follower tailing tails genuine fed =>
    rw [framed] at genuine
    have first := genuine frame mem_cons_self
    have rest : ∀ frame ∈ frames, Genuine start (heard state.primary) frame :=
      fun other member => genuine other (mem_cons_of_mem _ member)
    rcases tails.receive sound.recorded first early fresh with gap | ⟨next, applied, further⟩
    · refine .detached ?_ fed
      rw [tailing, gap]
    · refine .tailing ?_ further rest fed
      rw [tailing, applied]

theorem Sound.step (blank : ∀ place, fresh.contents place = none) {action : Action}
    (lawful : Lawful state action) (leaves : LeavesDeadlines state action)
    (before : action.clock ≤ time) : Sound fresh time start (state.step replid fresh action) := by
  cases action with
  | write op => exact sound.write lawful leaves
  | attach now => exact sound.attach blank before
  | chunk max => exact sound.chunk max
  | finish => exact sound.finish
  | drain send max => exact sound.drain send max
  | ack offset => exact sound.ack offset
  | deliver now => exact sound.deliver before

theorem Sound.run (blank : ∀ place, fresh.contents place = none)
    (lawful : Throughout replid fresh Lawful state actions)
    (leaves : Throughout replid fresh LeavesDeadlines state actions)
    (before : ∀ action ∈ actions, action.clock ≤ time) :
    Sound fresh time start (state.run replid fresh actions) := by
  induction actions generalizing state with
  | nil => exact sound
  | cons action actions ih =>
    have next : Sound fresh time start (state.step replid fresh action) :=
      sound.step blank lawful.1 leaves.1 (before action mem_cons_self)
    exact ih next lawful.2 leaves.2 fun other member =>
      before other (mem_cons_of_mem _ member)

end

/-- What is in place before a replica attaches: an observed store that can be shipped, and a ring
with nothing in it. -/
structure Fresh (fresh : ShardStore F) (state : Replication E F) : Prop where
  blank : ∀ place, fresh.contents place = none
  count : fresh.databases = state.primary.databases
  recorded : Recorded state.primary
  silent : heard state.primary = []
  ring : ∃ cap start disk, state.ring = .withDisk cap start disk ∧ ∀ backlog ∈ disk, backlog.segments = []
  detached : state.replica = .detached
  feed : state.feed = none

/-- A replica that has applied the head of the ring is read like the primary. -/
def Converged (state : Replication E F) (time : ℕ) : Prop :=
  ∀ replica : Replica F, state.replica = .tailing replica → replica.applied = state.ring.head →
    ∀ db key, replica.store.peek db key time = state.primary.peek db key time ∧
      (replica.store.read db key time).1 = (state.primary.read db key time).1

omit [EvictionPolicy E] in
theorem Sound.tails (sound : Sound fresh time start state)
    (tailing : state.replica = .tailing replica) : Tails time start state.primary replica := by
  cases sound.stage with
  | tailing same tails _ _ =>
    cases tailing.symm.trans same
    exact tails
  | detached detached _ => cases tailing.symm.trans detached
  | syncing _ loads _ =>
    rw [tailing, load_tailing] at loads
    cases loads
  | ended _ loaded _ _ _ =>
    rw [tailing, load_tailing] at loaded
    cases loaded

theorem Sound.converged (sound : Sound fresh time start state) : Converged state time := by
  intro replica tailing applied db key
  have peeked : replica.store.peek db key time = state.primary.peek db key time :=
    (sound.tails tailing).peek (applied.trans sound.carries.head) db key
  exact ⟨peeked, by rw [read_eq_peek, read_eq_peek, peeked]⟩

omit [EvictionPolicy E] in
theorem Fresh.sound (init : Fresh fresh state) (time : ℕ) : ∃ start, Sound fresh time start state := by
  obtain ⟨cap, start, disk, empty, segments⟩ := init.ring
  refine ⟨start, init.recorded, ?_, init.count, .detached init.detached fun cut now cursor fed => ?_⟩
  · rw [init.silent, empty]
    exact ⟨rfl, ReplRing.keeps_withDisk cap start segments⟩
  · rw [init.feed] at fed
    cases fed

/-- What was applied, or is no write, changes nothing. -/
private theorem receive_again (fresh : ShardStore F) (replica : Replica F)
    (old : ∀ op, frame = opToFrame op → op.offset ≤ replica.applied) (now : ℕ) :
    Receiver.receive fresh (.tailing replica) frame now = .tailing replica := by
  unfold Receiver.receive
  dsimp only
  cases frame with
  | streamPut offset db key kvobjBytes =>
    have duplicate : replica.apply (.streamPut offset db key kvobjBytes) now = (.duplicate, replica) :=
      Replica.inOrder_duplicate (old (.put offset db key kvobjBytes) rfl) _
    rw [duplicate]
  | streamDel offset db key =>
    have duplicate : replica.apply (.streamDel offset db key) now = (.duplicate, replica) :=
      Replica.inOrder_duplicate (old (.del offset db key) rfl) (some (replica.store.delete db key now).2)
    rw [duplicate]
  | _ => rfl

/-- A deadline that `Mutated` writes in silence is seen on the primary only. -/
private theorem not_converged_of_mutated (recorded : Recorded state.primary)
    (converged : Converged state now) (tailing : state.replica = .tailing replica)
    (applied : replica.applied = state.ring.head)
    (moves : ¬(Op.rmw db key now f).LeavesDeadline state.primary) :
    ¬Converged (state.step replid fresh (.write (.rmw db key now f))) now := by
  unfold Op.LeavesDeadline at moves
  push Not at moves
  obtain ⟨entry, found, live, mutated, other⟩ := moves
  obtain ⟨hooks, written⟩ := rmw_mutated recorded.present found live mutated
  intro again
  have quiet : news state.primary (.rmw db key now f) = [] := by
    unfold news heard
    change ((state.primary.rmw db key now f).2.observed.getD []).drop _ = []
    rw [hooks.observed, drop_length]
  have caught : replica.applied = (state.step replid fresh (.write (.rmw db key now f))).ring.head := by
    change _ = (state.ring.pushAll (news state.primary (.rmw db key now f))).head
    rw [quiet]
    exact applied
  have after := (again replica tailing caught db key).1
  rw [(converged replica tailing applied db key).1] at after
  have index : (state.primary.rmw db key now f).2.dbIndex db = state.primary.dbIndex db := by
    unfold dbIndex
    rw [show (state.primary.rmw db key now f).2.dbs.length = state.primary.dbs.length from
      hooks.databases]
  have shown : state.primary.peek db key now = some entry.reading := by
    have fresh : entry.reading.isExpired now = false := live
    unfold peek
    rw [readings_of_find found]
    simp [fresh]
  have changed : (state.primary.rmw db key now f).2.readings (state.primary.dbIndex db, key) =
      some ⟨entry.value.meaning,
        resolveExpire (f (some entry.occupied)).expire entry.expireAt⟩ := by
    rw [readings_update written, Function.update_self]
    rfl
  rw [shown] at after
  change some entry.reading = (state.primary.rmw db key now f).2.peek db key now at after
  unfold peek at after
  rw [index, changed, eq_comm, Option.filter_eq_some_iff] at after
  exact other (congrArg Reading.expireAt (Option.some.inj after.1))

/-- However writes, chunks, passes and deliveries interleave, a replica that has applied the head
of the ring is read like its primary from the last of the times on, and delivering what it has
applied again changes nothing, as long as every closure of `rmw` that answers `Mutated` leaves the
deadline; and such a call keeps the two alike exactly if it does. -/
theorem converged_run {fresh : ShardStore F} {state : Replication E F} (init : Fresh fresh state)
    (replid : Bytes) {actions : List Action} {time : ℕ}
    (lawful : Throughout replid fresh Lawful state actions)
    (leaves : Throughout replid fresh LeavesDeadlines state actions)
    (before : ∀ action ∈ actions, action.clock ≤ time) :
    (∀ later, time ≤ later → Converged (state.run replid fresh actions) later) ∧
    (∀ replica, (state.run replid fresh actions).replica = .tailing replica →
      ∀ frame now, (∀ op, frame = opToFrame op → op.offset ≤ replica.applied) →
        Receiver.receive fresh (.tailing replica) frame now = .tailing replica) ∧
    ∀ db key now f replica, time ≤ now →
      Lawful (state.run replid fresh actions) (.write (.rmw db key now f)) →
      (state.run replid fresh actions).replica = .tailing replica →
      replica.applied = (state.run replid fresh actions).ring.head →
      (Converged ((state.run replid fresh actions).step replid fresh
          (.write (.rmw db key now f))) now ↔
        (Op.rmw db key now f).LeavesDeadline (state.run replid fresh actions).primary) := by
  have sound : ∀ later, time ≤ later → ∃ start, Sound fresh later start (state.run replid fresh actions) := by
    intro later passed
    obtain ⟨start, first⟩ := init.sound later
    exact ⟨start, first.run init.blank lawful leaves fun action member =>
      (before action member).trans passed⟩
  refine ⟨fun later passed => ?_, fun replica _ frame now old => receive_again fresh replica old now,
    fun db key now f replica passed call tailing applied => ⟨fun again => ?_, fun keeps => ?_⟩⟩
  · obtain ⟨start, reached⟩ := sound later passed
    exact reached.converged
  · obtain ⟨start, reached⟩ := sound now passed
    by_contra moves
    exact not_converged_of_mutated reached.recorded reached.converged tailing applied moves again
  · obtain ⟨start, reached⟩ := sound now passed
    exact (reached.write call keeps).converged

def follower (state : Replication E F) : Option (Replica F) :=
  match state.replica with
  | .tailing replica => some replica
  | _ => none

omit [EvictionPolicy E] [EvictionPolicy F] in
private theorem follower_eq (following : state.follower = some replica) :
    state.replica = .tailing replica := by
  unfold follower at following
  split at following
  · rename_i same
    cases following
    exact same
  · cases following

def lonePrimary : Replication NullEviction NullEviction :=
  ⟨Op.watchedPair, .withDisk 8 0 none, none, [], .detached⟩

def emptyPair : ShardStore NullEviction := .withHooks 2 {}

private theorem fresh_lonePrimary : Fresh emptyPair lonePrimary := by
  have empty : ∀ place, Op.watchedPair.contents place = none :=
    contents_withHooks 2 (⟨⟩ : NullEviction)
  refine ⟨contents_withHooks 2 _, rfl, ⟨by decide, ?_, ?_, rfl, ?_⟩, rfl,
    ⟨8, 0, none, rfl, fun _ none => by cases none⟩, rfl, rfl⟩
  · intro place entry stored
    cases (empty place).symm.trans stored
  · intro place entry stored
    cases (empty place).symm.trans stored
  · exact fun _ member => absurd member not_mem_nil

/-- A key is written before the sync, another between two chunks, and all is delivered. -/
def syncedWrites : List Action :=
  [.write (.upsert 0 [97] (.bytes [1]) (.set 40) 3), .attach 5, .chunk 1,
    .write (.upsert 1 [98] (.bytes [2]) .clear 6), .write (.delete 0 [97] 7), .chunk 1, .finish,
    .drain (fun _ => true) 8, .deliver 8, .deliver 8, .deliver 8, .deliver 8, .deliver 9, .deliver 9]

private theorem lawful_syncedWrites : Throughout [] emptyPair Lawful lonePrimary syncedWrites := by
  have short : FitsBytes [1] ∧ FitsBytes [2] := by decide
  refine ⟨⟨⟨trivial, (fun _ same => by cases same), trivial⟩, fun event member => ?_⟩, trivial, trivial,
    ⟨⟨trivial, (fun _ same => by cases same), trivial⟩, fun event member => ?_⟩,
    ⟨⟨trivial, trivial, trivial⟩, fun event member => ?_⟩, trivial, trivial, trivial, trivial, trivial,
    trivial, trivial, trivial, trivial, trivial⟩
  · cases mem_singleton.mp member
    exact ⟨by decide, by decide, short.1⟩
  · cases mem_singleton.mp member
    exact ⟨by decide, by decide, short.2⟩
  · cases mem_singleton.mp member
    trivial

theorem converged_run_syncedWrites :
    ∃ replica, (lonePrimary.run [] emptyPair syncedWrites).replica = .tailing replica ∧
      replica.applied = (lonePrimary.run [] emptyPair syncedWrites).ring.head ∧
      ∀ db key, replica.store.peek db key 30 =
        (lonePrimary.run [] emptyPair syncedWrites).primary.peek db key 30 := by
  have leaves : Throughout [] emptyPair LeavesDeadlines lonePrimary syncedWrites := by
    repeat' constructor
  have before : ∀ action ∈ syncedWrites, action.clock ≤ 9 := by decide
  have caught : (lonePrimary.run [] emptyPair syncedWrites).follower.map Replica.applied =
      some (lonePrimary.run [] emptyPair syncedWrites).ring.head := by decide
  obtain ⟨replica, following, applied⟩ := Option.map_eq_some_iff.mp caught
  have tailing := follower_eq following
  have converged := (converged_run fresh_lonePrimary [] lawful_syncedWrites leaves before).1 30 (by decide)
  exact ⟨replica, tailing, applied, fun db key => (converged replica tailing applied db key).1⟩

/-- A hash with a field due at 5 is synced at 4, and `HSETEX` at 9 reaps the field and sets nothing. -/
def hsetexAfterSync : List Action :=
  [.write (.rmwMut 0 [97] 3 fun _ => ([], ⟨.insert (.hashEx [([1], [7]), ([2], [8])] [([1], 5)]), .clear, ()⟩)),
    .attach 4, .chunk 8, .finish, .deliver 4, .deliver 4, .deliver 4,
    .write (.rmwMut 0 [97] 9 (cmdHsetex false true false none [([3], [9])] 9))]

/-- What a field of a hash is read as. -/
def fieldOf (field : Bytes) : Option Reading → Option Bytes
  | some ⟨.hash hash, _⟩ => hash.get field
  | _ => none

/-- The replica has applied everything and keeps the field, which the primary has no more; only the
second closure is not as the writes of a run should be, and it hands no event to the ring. -/
theorem not_converged_hsetexAfterSync :
    Throughout [] emptyPair LeavesDeadlines lonePrimary hsetexAfterSync ∧
      (lonePrimary.run [] emptyPair hsetexAfterSync).follower.map (fun replica =>
          (replica.applied, fieldOf [1] (replica.store.peek 0 [97] 9))) =
        some ((lonePrimary.run [] emptyPair hsetexAfterSync).ring.head, some [7]) ∧
      fieldOf [1] ((lonePrimary.run [] emptyPair hsetexAfterSync).primary.peek 0 [97] 9) = none := by
  refine ⟨?_, by decide +kernel, by decide +kernel⟩
  repeat' constructor

end Replication

end IronCache.Repl
