import IronCache.Repl.Ring

/-!
# Serving replicas from one ring

The primary of `serve_replica_conn`, with any number of connections that drain one ring.
-/

namespace IronCache.Repl

open List
open ReplRing (evict needsResync oldestRecoverable oldestRetained opsAfter push recoverFrom recoverOpsAfter)

/-- A replica connection: in its full sync, or in the tail after a full sync at `synced`. -/
inductive Conn where
  | syncing (cut : ℕ)
  | tailing (synced : Option ℕ) (cursor : ℕ)
deriving DecidableEq

/-- The ring, its connections, and every write observed so far with its offset. -/
structure Primary where
  ring : ReplRing
  conns : ℕ → Option Conn
  observed : List StreamOp

inductive Event where
  | write (op : StreamOp)
  | attach (conn : ℕ) (importing tokenMatches : Bool) (ack : ℕ)
  | synced (conn : ℕ)
  | drain (conn : ℕ) (send : StreamOp → Bool) (max : ℕ)
  | drop (conn : ℕ)

namespace Primary

def new (cap start : ℕ) : Primary := ⟨.new cap start, fun _ => none, []⟩

def setConn (primary : Primary) (conn : ℕ) (state : Option Conn) : Primary :=
  { primary with conns := Function.update primary.conns conn state }

/-- The resume check of the handshake; a refused one begins a full sync at the ring's head. -/
def attach (primary : Primary) (conn : ℕ) (importing tokenMatches : Bool) (ack : ℕ) : Primary :=
  let ring := if !importing && tokenMatches && primary.ring.disk.isSome then primary.ring.flushSpill
    else primary.ring
  let canResume := !importing && tokenMatches && decide (0 < ack) && decide (ack ≤ ring.head) &&
    !ring.needsResync && ring.canServeFrom ack
  { primary with ring }.setConn conn (some (if canResume then .tailing none ack else .syncing ring.head))

/-- One pass of the tail loop: the connection ends unless the batch was shipped. -/
def drain (primary : Primary) (conn : ℕ) (send : StreamOp → Bool) (max : ℕ) : Primary :=
  match primary.conns conn with
  | some (.tailing synced cursor) =>
    let shipment := drainAndShip send primary.ring cursor max
    { primary with ring := shipment.ring }.setConn conn <|
      match shipment.outcome with
      | .shipped _ => some (.tailing synced shipment.cursor)
      | .resyncNeeded | .linkDown => none
  | _ => primary

def step (primary : Primary) : Event → Primary
  | .write op =>
    { primary with
      ring := primary.ring.push op
      observed := primary.observed ++ [op.at (primary.ring.head + 1)] }
  | .attach conn importing tokenMatches ack => primary.attach conn importing tokenMatches ack
  | .synced conn =>
    match primary.conns conn with
    | some (.syncing cut) => primary.setConn conn (some (.tailing (some cut) cut))
    | _ => primary
  | .drain conn send max => primary.drain conn send max
  | .drop conn => primary.setConn conn none

def run (primary : Primary) (events : List Event) : Primary := events.foldl step primary

/-- The ring without a disk holds the last `cap` writes, and remembers if there ever were more. -/
structure Retains (start : ℕ) (primary : Primary) : Prop where
  diskless : primary.ring.disk = none
  unstaged : primary.ring.spillStage = []
  roomy : 0 < primary.ring.cap
  head : primary.ring.head = start + primary.observed.length
  offsets : primary.observed.map StreamOp.offset = range' (start + 1) primary.observed.length
  window : primary.ring.ops = primary.observed.drop (primary.observed.length - primary.ring.cap)
  latched : primary.ring.mustResync = decide (primary.ring.cap < primary.observed.length)
  cuts : ∀ conn cut, primary.conns conn = some (.syncing cut) → start ≤ cut
  cursors : ∀ conn cut cursor, primary.conns conn = some (.tailing (some cut) cursor) → start ≤ cursor

variable {start : ℕ} {primary : Primary}

private theorem retains_new (cap start : ℕ) : Retains start (new cap start) where
  diskless := rfl
  unstaged := rfl
  roomy := by simp [new, ReplRing.new, ReplRing.withDisk]
  head := rfl
  offsets := rfl
  window := by simp [new, ReplRing.new, ReplRing.withDisk]
  latched := by simp [new, ReplRing.new, ReplRing.withDisk]
  cuts := by simp [new]
  cursors := by simp [new]

section

variable (retains : Retains start primary)
include retains

/-- Replacing one connection keeps what is retained if its own cut or cursor is not too low. -/
theorem Retains.setConn (conn : ℕ) (state : Option Conn)
    (cut : ∀ cut, state = some (.syncing cut) → start ≤ cut)
    (cursor : ∀ cut cursor, state = some (.tailing (some cut) cursor) → start ≤ cursor) :
    Retains start (primary.setConn conn state) := by
  refine { retains with cuts := ?_, cursors := ?_ }
  · intro other otherCut found
    by_cases same : other = conn
    · subst same
      exact cut otherCut (by simpa [Primary.setConn] using found)
    · exact retains.cuts other otherCut (by simpa [Primary.setConn, same] using found)
  · intro other otherCut otherCursor found
    by_cases same : other = conn
    · subst same
      exact cursor otherCut otherCursor (by simpa [Primary.setConn] using found)
    · exact retains.cursors other otherCut otherCursor (by simpa [Primary.setConn, same] using found)

variable {ring : ReplRing}

omit retains in
private theorem push_diskless (diskless : ring.disk = none) : ring.push op = { ring with
      head := ring.head + 1
      mustResync := ring.mustResync || decide (ring.cap ≤ ring.ops.length)
      ops := (if ring.cap ≤ ring.ops.length then ring.ops.tail else ring.ops) ++
        [op.at (ring.head + 1)] } := by
  by_cases full : ring.cap ≤ ring.ops.length
  · simp [push, evict, full, diskless]
  · simp [push, evict, full]

theorem Retains.write (op : StreamOp) : Retains start (primary.step (.write op)) := by
  obtain ⟨diskless, unstaged, roomy, head, offsets, window, latched, cuts, cursors⟩ := retains
  have length : primary.ring.ops.length = min primary.ring.cap primary.observed.length := by
    rw [window, length_drop]
    omega
  refine ⟨?_, ?_, ?_, ?_, ?_, ?_, ?_, cuts, cursors⟩
  all_goals simp only [step, push_diskless diskless, length_append, length_singleton]
  · exact diskless
  · exact unstaged
  · exact roomy
  · omega
  · rw [map_append, offsets, range'_1_concat, head]
    simp
    omega
  · by_cases full : primary.ring.cap ≤ primary.ring.ops.length
    · rw [if_pos full, window, tail_drop, drop_append_of_le_length (by omega)]
      congr 2
      omega
    · rw [if_neg full, window, Nat.sub_eq_zero_of_le (by omega), Nat.sub_eq_zero_of_le (by omega)]
      rfl
  · rw [latched, length, ← Bool.decide_or]
    congr 1
    simp only [eq_iff_iff]
    omega

omit retains in
private theorem recoverOpsAfter_diskless (diskless : ring.disk = none) (cursor max : ℕ) :
    ring.recoverOpsAfter cursor max = ring.opsAfter cursor max := by
  by_cases zero : max = 0
  · simp [recoverOpsAfter, recoverFrom, opsAfter, zero]
  · simp [recoverOpsAfter, recoverFrom, zero, diskless]

omit retains in
theorem drainAndShip_diskless (diskless : ring.disk = none) (send : StreamOp → Bool) (cursor max : ℕ) :
    drainAndShip send ring cursor max =
      if ring.mustResync ∨ ring.canServeFrom cursor = false then ⟨ring, cursor, [], .resyncNeeded⟩
      else
        ⟨ring, (((ring.opsAfter cursor max).getLast?.map StreamOp.offset).getD cursor).max cursor,
          (ring.opsAfter cursor max).takeWhile send,
          if (ring.opsAfter cursor max).takeWhile send = ring.opsAfter cursor max then
            .shipped (ring.opsAfter cursor max).length
          else .linkDown⟩ := by
  unfold drainAndShip needsResync
  simp only [diskless, Option.isSome_none, Bool.false_eq_true, if_false, recoverOpsAfter_diskless diskless]
  by_cases latched : ring.mustResync = true
  · simp [latched]
  · by_cases servable : ring.canServeFrom cursor = true <;> simp [latched, servable]

theorem Retains.attach (conn : ℕ) (importing tokenMatches : Bool) (ack : ℕ) :
    Retains start (primary.attach conn importing tokenMatches ack) := by
  have head := retains.head
  unfold Primary.attach
  simp only [retains.diskless, Option.isSome_none, Bool.and_false, Bool.false_eq_true, if_false]
  apply retains.setConn
  · intro cut found
    split_ifs at found with resumes
    · cases found
    · cases found
      omega
  · intro cut cursor found
    split_ifs at found with resumes <;> cases found

theorem Retains.drain (conn : ℕ) (send : StreamOp → Bool) (max : ℕ) :
    Retains start (primary.drain conn send max) := by
  unfold Primary.drain
  split
  · rename_i synced cursor tailing
    rw [drainAndShip_diskless retains.diskless]
    split_ifs with resync whole
    · exact retains.setConn conn none (by simp) (by simp)
    · apply retains.setConn
      · intro cut found
        cases found
      · intro cut next found
        cases found
        exact (retains.cursors conn cut cursor tailing).trans (le_max_right _ _)
    · exact retains.setConn conn none (by simp) (by simp)
  · exact retains

theorem Retains.step (event : Event) : Retains start (primary.step event) := by
  cases event with
  | write op => exact retains.write op
  | attach conn importing tokenMatches ack => exact retains.attach conn importing tokenMatches ack
  | synced conn =>
    unfold Primary.step
    dsimp only
    split
    · rename_i cut syncing
      apply retains.setConn
      · intro other found
        cases found
      · intro other cursor found
        cases found
        exact retains.cuts conn cut syncing
    · exact retains
  | drain conn send max => exact retains.drain conn send max
  | drop conn => exact retains.setConn conn none (by simp) (by simp)

theorem Retains.run (events : List Event) : Retains start (primary.run events) := by
  induction events generalizing primary with
  | nil => exact retains
  | cons event events ih => exact ih (retains.step event)

/-- The ring always serves a cursor at or above its start as long as it has evicted nothing. -/
theorem Retains.canServeFrom (few : primary.observed.length ≤ primary.ring.cap)
    (above : start ≤ cursor) : primary.ring.canServeFrom cursor = true := by
  have whole : primary.ring.ops = primary.observed := by
    rw [retains.window, Nat.sub_eq_zero_of_le few, drop_zero]
  have oldest : primary.ring.oldestRecoverable ≤ start + 1 := by
    have offsets := retains.offsets
    have head := retains.head
    unfold oldestRecoverable oldestRetained
    simp only [retains.diskless, retains.unstaged, whole, Option.bind_none, head?_nil,
      Option.map_none, Option.getD_none]
    cases listed : primary.observed with
    | nil => simp [listed] at head; simp; omega
    | cons op rest => simp [listed, range'_succ] at offsets; simp [offsets]
  simp [ReplRing.canServeFrom]
  omega

end

/-- A shipping pass of a connection that took a full sync ships what was written above its cursor,
exactly while the ring has never evicted a write. -/
theorem drain_serves_iff (cap start : ℕ) (events : List Event) (conn cut cursor : ℕ)
    (send : StreamOp → Bool) (max : ℕ)
    (tailing : ((new cap start).run events).conns conn = some (.tailing (some cut) cursor)) :
    (drainAndShip send ((new cap start).run events).ring cursor max).outcome ≠ .resyncNeeded ∧
        (drainAndShip send ((new cap start).run events).ring cursor max).frames =
          ((((new cap start).run events).observed.filter (cursor < ·.offset)).take max).takeWhile
            send ↔
      ((new cap start).run events).observed.length ≤ ((new cap start).run events).ring.cap := by
  have retains := (retains_new cap start).run events
  generalize (new cap start).run events = primary at *
  have above := retains.cursors conn cut cursor tailing
  rw [drainAndShip_diskless retains.diskless, retains.latched]
  by_cases few : primary.observed.length ≤ primary.ring.cap
  · have whole : primary.ring.ops = primary.observed := by
      rw [retains.window, Nat.sub_eq_zero_of_le few, drop_zero]
    have served : ¬ (decide (primary.ring.cap < primary.observed.length) = true ∨
        primary.ring.canServeFrom cursor = false) := by
      simp [few, retains.canServeFrom few above]
    rw [if_neg served]
    refine iff_of_true ⟨?_, ?_⟩ few
    · split_ifs <;> simp
    · rw [opsAfter, whole]
  · rw [if_pos (.inl (by simpa using few))]
    simp [few]

/-- One write before the full sync and one after it, in a ring of two. -/
def afterSync : List Event :=
  [.write (.del 0 0 [1]), .attach 0 false false 0, .synced 0, .write (.del 0 0 [2])]

theorem drain_serves_afterSync : ((new 2 0).run afterSync).conns 0 = some (.tailing (some 1) 1) ∧
      (drainAndShip (fun _ => true) ((new 2 0).run afterSync).ring 1 8).frames = [.del 2 0 [2]] := by
  have tailing : ((new 2 0).run afterSync).conns 0 = some (.tailing (some 1) 1) := by decide
  have served := (drain_serves_iff 2 0 afterSync 0 1 1 (fun _ => true) 8 tailing).mpr (by decide)
  exact ⟨tailing, served.2.trans (by decide)⟩

/-- Two writes before the full sync, in a ring of one: the sync is complete and nothing was written
since, and still the first pass sends the replica back. -/
theorem drain_refuses_fresh_sync :
    ∃ events : List Event, ((new 1 0).run events).conns 0 = some (.tailing (some 2) 2) ∧
        ((new 1 0).run events).ring.head - 2 ≤ ((new 1 0).run events).ring.cap ∧
        (drainAndShip (fun _ => true) ((new 1 0).run events).ring 2 8).outcome = .resyncNeeded :=
  ⟨[.write (.del 0 0 [1]), .write (.del 0 0 [2]), .attach 0 false false 0, .synced 0],
    by decide, by decide, by decide⟩

end Primary

end IronCache.Repl
