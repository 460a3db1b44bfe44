import IronCache.Serve.Paths

/-!
# Replicas in sync

`min-replicas-to-write` is asked once, when a plain command is routed.
-/

namespace IronCache.Serve

open Protocol (Request ErrorReply utf8 keySlot)
open Cluster Coord Store
open List

section Steps

variable {E κ ν : Type} [EvictionHook E] [DecidableEq ν]

variable {node start : Node E κ ν} {request : Request} {event : Event ν}

/-- A write that names a key meets enough replicas in sync. -/
def QuorumMet (server : Server E κ ν) (inSync : ℕ) (request : Request) : Prop :=
  isWrite (asciiUpper (command request)) = true → routedKeys (asciiUpper (command request)) request ≠ [] →
    server.minReplicasToWrite ≤ inSync

variable {server : Server E κ ν}

omit [EvictionHook E] [DecidableEq ν] in
private theorem quorumMet_of_writeGuardrail
    (passed : writeGuardrail server.minReplicasToWrite inSync (called request) request = none) :
    QuorumMet server inSync request := by
  intro write keyed
  obtain ⟨key, named⟩ := exists_mem_of_ne_nil _ keyed
  exact le_of_writeGuardrail passed write named

/-- The command is this event, and the guardrail let it through with the replicas then in sync. -/
structure LetThrough (server : Server E κ ν) (node : Node E κ ν) (event : Event ν) (c inSync : ℕ)
    (request : Request) : Prop where
  comes : ∃ now, event = .command c now request
  count : node.replicas.count = inSync
  met : QuorumMet server inSync request

/-- What a command that comes sends on, and what it runs as itself, was let through. -/
theorem letThrough_command :
    (∀ hop ∈ (node.step server (.command c now request)).1.pending, hop ∈ node.pending ∨
        LetThrough server node (.command c now request) hop.conn hop.inSync hop.request) ∧
      ∀ run ∈ (node.step server (.command c now request)).2, ∀ inSync, run.origin = .routed inSync →
        LetThrough server node (.command c now request) run.conn inSync run.request := by
  have comes (met : QuorumMet server node.replicas.count request) :
      LetThrough server node (.command c now request) c node.replicas.count request := ⟨⟨now, rfl⟩, rfl, met⟩
  -- what stays in its queue, or blocks, sends nothing on
  have same : ∀ hop ∈ node.pending, hop ∈ node.pending ∨
      LetThrough server node (.command c now request) hop.conn hop.inSync hop.request := fun _ => .inl
  have still : ∀ run ∈ ([] : List (Run E)), ∀ inSync, run.origin = .routed inSync →
      LetThrough server node (.command c now request) run.conn inSync run.request :=
    fun _ member => nomatch member
  have blocked {run : Run E} (blocking : run.origin = .blocking) (inSync : ℕ)
      (routed : run.origin = .routed inSync) :
      LetThrough server node (.command c now request) run.conn inSync run.request := by
    rw [blocking] at routed
    cases routed
  have atHome {conn next : Conn κ} {asking : Bool} (prepared : conn.Prepared next)
      (alone : conn.inMulti = false → QuorumMet server node.replicas.count request) :
      ∀ run ∈ (handleHome server node c now request next asking).2, ∀ inSync,
        run.origin = .routed inSync →
        LetThrough server node (.command c now request) run.conn inSync run.request := by
    intro run member inSync routed
    rcases handleRequest_runs server now c node.replicas.count asking request next
      (node.stores next.home) with ⟨-, -, -, -, none⟩ | ⟨-, runs⟩
    · rw [handleHome, none] at member
      cases member
    rcases runs run member with ⟨queued, -⟩ | ⟨origin, -, mine, own, control⟩
    · rw [queued] at routed
      cases routed
    rw [origin] at routed
    cases routed
    rw [own, mine]
    refine comes ?_
    cases inMulti : conn.inMulti with
    | false => exact alone inMulti
    | true =>
      intro _ keyed
      exact absurd (routedKeys_of_control (control (prepared.inMulti.trans inMulti))) keyed
  simp only [Node.step]
  split
  · exact ⟨same, still⟩
  have routes := routes_route server node now request (node.conns c)
  generalize route server node now request (node.conns c) = routed at routes ⊢
  cases routes with
  | answered prepared => exact ⟨same, still⟩
  | blocking prepared alone blocks =>
    unfold handleBlockingLive
    dsimp only
    split
    · exact ⟨same, still⟩
    split
    · exact ⟨same, still⟩
    split
    · exact ⟨same, forall_mem_singleton.mpr (blocked rfl)⟩
    · exact ⟨same, forall_mem_singleton.mpr (blocked rfl)⟩
  | inside prepared inMulti passed =>
    refine ⟨same, atHome prepared fun alone => ?_⟩
    rw [inMulti] at alone
    cases alone
  | home prepared alone waits passed guarded =>
    exact ⟨same, atHome prepared fun _ => quorumMet_of_writeGuardrail guarded⟩
  | spread prepared waits passed guarded =>
    refine ⟨fun hop member => ?_, still⟩
    rcases mem_append.mp member with old | sent
    · exact .inl old
    · obtain ⟨shard, -, rfl⟩ := mem_map.mp sent
      exact .inr (comes (quorumMet_of_writeGuardrail guarded))

/-- A hop is old, or of a command that comes now. -/
private theorem pending_step (member : hop ∈ (node.step server event).1.pending) :
    hop ∈ node.pending ∨ LetThrough server node event hop.conn hop.inSync hop.request := by
  cases event with
  | command c now request => exact letThrough_command.1 hop member
  | serve shard now =>
    simp only [Node.step, serveHop] at member
    split at member
    · exact .inl member
    · exact .inl (mem_of_mem_eraseP member)
  | attempt c now =>
    simp only [Node.step, attempt] at member
    split at member
    · exact .inl member
    · exact .inl member
  | leave c => exact .inl member
  | remapped map => exact .inl member
  | replica replica inSync => exact .inl member
  | replicaGone replica => exact .inl member
  | replicaRead inSync => exact .inl member

/-- A routed command that runs comes now, or over a hop that took the number along. -/
private theorem routed_step (member : run ∈ (node.step server event).2)
    (routed : run.origin = .routed inSync) :
    LetThrough server node event run.conn inSync run.request ∨
      ((∃ shard now, event = .serve shard now) ∧ ∃ hop ∈ node.pending,
        hop.conn = run.conn ∧ hop.inSync = inSync ∧ hop.request = run.request) := by
  cases event with
  | command c now request =>
    exact .inl (letThrough_command.2 run member inSync routed)
  | serve shard now =>
    simp only [Node.step, serveHop] at member
    split at member
    · cases member
    next hop found =>
      rw [mem_singleton.mp member] at routed ⊢
      cases routed
      exact .inr ⟨⟨shard, now, rfl⟩, hop, mem_of_find?_eq_some found, rfl, rfl, rfl⟩
  | attempt c now =>
    simp only [Node.step, attempt] at member
    split at member
    · cases member
    · rw [mem_singleton.mp member] at routed
      cases routed
  | leave c => cases member
  | remapped map => cases member
  | replica replica inSync => cases member
  | replicaGone replica => cases member
  | replicaRead inSync => cases member

/-- Among some events is one at which the command came and was let through. -/
def CameThrough (server : Server E κ ν) (start : Node E κ ν) (events : List (Event ν)) (c inSync : ℕ)
    (request : Request) : Prop :=
  ∃ before event later, events = before ++ event :: later ∧
    LetThrough server (start.run server before) event c inSync request

theorem CameThrough.concat (event : Event ν) (came : CameThrough server start events c inSync request) :
    CameThrough server start (events ++ [event]) c inSync request := by
  obtain ⟨before, first, later, rfl, through⟩ := came
  exact ⟨before, first, later ++ [event], by simp, through⟩

private theorem pending_run (empty : start.pending = []) (events : List (Event ν)) :
    ∀ hop ∈ (start.run server events).pending,
      CameThrough server start events hop.conn hop.inSync hop.request := by
  induction events using reverseRecOn with
  | nil =>
    intro hop member
    rw [show (start.run server []).pending = [] from empty] at member
    cases member
  | append_singleton events event ih =>
    intro hop member
    rw [Node.run_concat] at member
    rcases pending_step member with old | through
    · exact (ih hop old).concat event
    · exact ⟨events, event, [], rfl, through⟩

/-- In every run, a routed write that names a key was let through by the number of replicas in sync
at the moment its connection sent it; and that is the moment at which it runs, unless it runs over a
hop. -/
theorem routed_write_guarded (server : Server E κ ν) (map : SlotMap ν) (stores : ℕ → ShardStore E)
    (conns : ℕ → ℕ × κ) (events : List (Event ν)) (event : Event ν) :
    let start := Node.start map stores conns
    let node := start.run server events
    ∀ run ∈ (node.step server event).2, ∀ inSync, run.origin = .routed inSync →
      isWrite (asciiUpper (command run.request)) = true →
      routedKeys (asciiUpper (command run.request)) run.request ≠ [] →
      server.minReplicasToWrite ≤ inSync ∧
        (inSync = node.replicas.count ∨ ∃ shard now, event = .serve shard now) ∧
        ∃ before now later, events ++ [event] = before ++ .command run.conn now run.request :: later ∧
          (start.run server before).replicas.count = inSync := by
  intro start node run member inSync routed write keyed
  rcases routed_step member routed with ⟨⟨now, rfl⟩, count, met⟩ | ⟨served, hop, pending, conn, sync, same⟩
  · exact ⟨met write keyed, .inl count.symm, events, now, [], rfl, count⟩
  have came := pending_run rfl events hop pending
  rw [conn, sync, same] at came
  obtain ⟨before, _, later, rfl, ⟨now, rfl⟩, count, met⟩ := came
  exact ⟨met write keyed, .inr served, before, now, later ++ [event], by simp, count⟩

end Steps

/-- A write that was forwarded with one replica in sync, and runs when there is none. -/
theorem routed_write_guarded_hop :
    let server := smallServer 2 1
    let set := words ["SET", "a", "1"]
    let events := [.replica 7 true, .command 1 0 set, .replicaGone 7]
    let serve := .serve (ownerShard (utf8 "a") 2) 0
    let node := twoShards.run server events
    node.replicas.count = 0 ∧ ∃ run ∈ (node.step server serve).2, run.origin = .routed 1 ∧
      server.minReplicasToWrite ≤ 1 ∧ ∃ before now later,
        events ++ [serve] = before ++ .command run.conn now run.request :: later ∧
          (twoShards.run server before).replicas.count = 1 := by
  intro server set events serve node
  have ran : ∃ run ∈ (node.step server serve).2, run.origin = .routed 1 ∧
      isWrite (asciiUpper (command run.request)) = true ∧
        routedKeys (asciiUpper (command run.request)) run.request ≠ [] := by
    decide +kernel
  obtain ⟨run, member, routed, write, keyed⟩ := ran
  obtain ⟨enough, -, came⟩ := routed_write_guarded server _ _ _ events serve run member 1 routed write keyed
  exact ⟨by decide +kernel, run, member, routed, enough, came⟩

/-- Runs whose last event changes the key `a` while no replica is in sync: a command without keys,
a hop, a queue, and a blocking command at once and after parking. -/
def unguardedRuns : List (List (Event ℕ) × Event ℕ) :=
  let shard := ownerShard (utf8 "a") 2
  let push := words ["RPUSH", "a", "x"]
  let pop := words ["BLPOP", "a", "0"]
  let set := words ["SET", "a", "1"]
  [([.replica 7 true, .command 0 0 set, .replicaGone 7, .command 0 0 (words ["FLUSHALL"])], .serve shard 0),
   ([.replica 7 true, .command 1 0 set, .replicaGone 7], .serve shard 0),
   ([.command 0 0 (words ["MULTI"]), .command 0 0 set], .command 0 0 (words ["EXEC"])),
   ([.replica 7 true, .command 0 0 push, .replicaGone 7], .command 0 0 pop),
   ([.command 0 0 pop, .replica 7 true, .command 2 0 push, .replicaGone 7], .attempt 0 0)]

theorem unguardedRuns_change : unguardedRuns.length = 5 ∧ ∀ run ∈ unguardedRuns,
    let server := smallServer 2 1
    let node := twoShards.run server run.1
    node.replicas.count < server.minReplicasToWrite ∧
      ∃ broken ∈ (node.step server run.2).2, broken.Changes (utf8 "a") := by
  have changed : ∀ run ∈ unguardedRuns,
      let server := smallServer 2 1
      let node := twoShards.run server run.1
      node.replicas.count < server.minReplicasToWrite ∧ ∃ broken ∈ (node.step server run.2).2,
          seen broken.now 0 (utf8 "a") broken.after ≠ seen broken.now 0 (utf8 "a") broken.before := by
    decide +kernel
  refine ⟨rfl, fun run member => ?_⟩
  obtain ⟨few, broken, ran, change⟩ := changed run member
  exact ⟨few, broken, ran, 0, change⟩

end IronCache.Serve
