import IronCache.Serve.Node

/-!
# The paths of a command

What the router and the home dispatch can do with a command.
-/

namespace IronCache.Serve

open Protocol (Request ErrorReply utf8 keySlot)
open Cluster Coord Store

/-- The queue is gone, or the transaction is as it was. -/
def Conn.KeepsQueue (conn next : Conn κ) : Prop :=
  next.queued = [] ∨
    (next.queued = conn.queued ∧ next.inMulti = conn.inMulti ∧ next.txnAsking = conn.txnAsking)

section Dispatch

variable {E κ ν : Type} [EvictionHook E]

private theorem keepsQueue_cmdWatch (conn : Conn κ) (store : ShardStore E) :
    conn.KeepsQueue (cmdWatch now request conn store).conn := by
  unfold cmdWatch
  split_ifs
  · exact .inr ⟨rfl, rfl, rfl⟩
  · exact .inr ⟨rfl, rfl, rfl⟩
  · exact .inr ⟨rfl, rfl, rfl⟩

variable {conn : Conn κ}

omit [EvictionHook E] in
private theorem keepsQueue_bare (keeps : conn.KeepsQueue effect.conn) :
    conn.KeepsQueue (bare name request conn store effect).conn := by
  unfold bare
  split_ifs
  · exact .inr ⟨rfl, rfl, rfl⟩
  · exact keeps

omit [EvictionHook E] in
private theorem keepsQueue_ite {condition : Prop} [Decidable condition] {first second : Effect E κ}
    (kept : conn.KeepsQueue first.conn) (otherwise : conn.KeepsQueue second.conn) :
    conn.KeepsQueue (if condition then first else second).conn := by
  split_ifs
  · exact kept
  · exact otherwise

theorem keepsQueue_dispatchInner (server : Server E κ ν) (now : ℕ) (request : Request)
    (conn : Conn κ) (store : ShardStore E) :
    conn.KeepsQueue (dispatchInner server now request conn store).conn := by
  have same {next : Conn κ} (queued : next.queued = conn.queued)
      (inMulti : next.inMulti = conn.inMulti) (asking : next.txnAsking = conn.txnAsking) :
      conn.KeepsQueue next := .inr ⟨queued, inMulti, asking⟩
  -- MULTI opens with an empty queue, DISCARD and RESET leave one
  refine keepsQueue_ite (keepsQueue_bare (keepsQueue_ite (same rfl rfl rfl) (.inl rfl))) ?_
  refine keepsQueue_ite (keepsQueue_bare (keepsQueue_ite (same rfl rfl rfl) (.inl rfl))) ?_
  refine keepsQueue_ite (keepsQueue_cmdWatch conn store) ?_
  refine keepsQueue_ite (keepsQueue_ite (same rfl rfl rfl) (same rfl rfl rfl)) ?_
  refine keepsQueue_ite (.inl rfl) ?_
  refine keepsQueue_ite (keepsQueue_ite (same rfl rfl rfl) (same rfl rfl rfl)) ?_
  refine keepsQueue_ite (keepsQueue_ite (same rfl rfl rfl) (same rfl rfl rfl)) ?_
  refine keepsQueue_ite (keepsQueue_ite (same rfl rfl rfl) (same rfl rfl rfl)) ?_
  refine keepsQueue_ite (same rfl rfl rfl) ?_
  split
  all_goals exact same rfl rfl rfl

/-- What a batch runs are its commands, and it leaves no queue behind. -/
private theorem replay_runs (store : ShardStore E) (empty : conn.queued = []) :
    (replay server now c asking batch conn store).2.conn.queued = [] ∧
      ∀ run ∈ (replay server now c asking batch conn store).2.runs,
        run.origin = .queued ∧ run.asking = asking ∧ run.request ∈ batch := by
  induction batch generalizing conn store with
  | nil => exact ⟨empty, fun run member => nomatch member⟩
  | cons request batch ih =>
    unfold replay
    split
    · obtain ⟨queue, runs⟩ := ih store empty
      refine ⟨queue, fun run member => ?_⟩
      obtain ⟨origin, asked, listed⟩ := runs run member
      exact ⟨origin, asked, List.mem_cons_of_mem _ listed⟩
    have kept : (dispatchInner server now request conn store).conn.queued = [] := by
      rcases keepsQueue_dispatchInner server now request conn store with gone | ⟨queued, _⟩
      · exact gone
      · exact queued.trans empty
    obtain ⟨queue, runs⟩ :=
      ih (dispatchInner server now request conn store).store kept
    refine ⟨queue, fun run member => ?_⟩
    rcases List.mem_cons.mp member with rfl | later
    · exact ⟨rfl, rfl, List.mem_cons_self⟩
    · obtain ⟨origin, asked, listed⟩ := runs run later
      exact ⟨origin, asked, List.mem_cons_of_mem _ listed⟩

private theorem execTransaction_runs (server : Server E κ ν) (now c : ℕ) (request : Request)
    (conn : Conn κ) (store : ShardStore E) :
    conn.KeepsQueue (execTransaction server now c request conn store).conn ∧
      ∀ run ∈ (execTransaction server now c request conn store).runs,
        run.origin = .queued ∧ run.asking = conn.txnAsking ∧ run.request ∈ conn.queued := by
  have still : ∀ run ∈ ([] : List (Run E)),
      run.origin = .queued ∧ run.asking = conn.txnAsking ∧ run.request ∈ conn.queued :=
    fun run member => nomatch member
  unfold execTransaction bare
  split
  · exact ⟨.inr ⟨rfl, rfl, rfl⟩, still⟩
  split
  · exact ⟨.inr ⟨rfl, rfl, rfl⟩, still⟩
  split
  · exact ⟨.inl rfl, still⟩
  split
  · exact ⟨.inl rfl, still⟩
  next left _ =>
    have cleared : (unwatchAll conn left).1.clearTxn.queued = [] := rfl
    obtain ⟨queue, runs⟩ := replay_runs (unwatchAll conn left).2 cleared
    exact ⟨.inl queue, runs⟩

/-- A command inside a transaction joins the queue or spoils it; any other run is of the queue or of
the command itself, which then is outside a transaction or one of its control verbs. -/
theorem handleRequest_runs (server : Server E κ ν) (now c inSync : ℕ) (asking : Bool)
    (request : Request) (conn : Conn κ) (store : ShardStore E) :
    let effect := handleRequest server now c inSync asking request conn store
    (conn.inMulti = true ∧ effect.conn.inMulti = true ∧ effect.conn.txnAsking = conn.txnAsking ∧
        (effect.conn.queued = conn.queued ∨ effect.conn.queued = conn.queued ++ [request]) ∧
        effect.runs = []) ∨
      (conn.KeepsQueue effect.conn ∧ ∀ run ∈ effect.runs,
        (run.origin = .queued ∧ run.asking = conn.txnAsking ∧ run.request ∈ conn.queued) ∨
        (run.origin = .routed inSync ∧ run.asking = asking ∧ run.conn = c ∧ run.request = request ∧
          (conn.inMulti = true → named controlNames (called request) = true))) := by
  intro effect
  have unfolded : effect = handleRequest server now c inSync asking request conn store := rfl
  unfold handleRequest at unfolded
  dsimp only at unfolded
  split at unfolded
  next inside =>
    have inMulti : conn.inMulti = true := (Bool.and_eq_true_iff.mp inside).1
    left
    split at unfolded
    · rw [unfolded]
      exact ⟨inMulti, inMulti, rfl, .inl rfl, rfl⟩
    · rw [unfolded]
      exact ⟨inMulti, inMulti, rfl, .inr rfl, rfl⟩
  next outside =>
    right
    split at unfolded
    · obtain ⟨keeps, runs⟩ := execTransaction_runs server now c request conn store
      rw [unfolded]
      exact ⟨keeps, fun run member => .inl (runs run member)⟩
    rw [unfolded]
    refine ⟨keepsQueue_dispatchInner server now request conn store, fun run member => ?_⟩
    rw [List.mem_singleton.mp member]
    refine .inr ⟨rfl, rfl, rfl, rfl, fun inMulti => ?_⟩
    by_contra other
    exact outside (by simpa [inMulti] using other)

end Dispatch

/-- The router leaves the queue alone; only outside a transaction does it set the flag of one. -/
structure Conn.Prepared (conn next : Conn κ) : Prop where
  home : next.home = conn.home
  queued : next.queued = conn.queued
  inMulti : next.inMulti = conn.inMulti
  txnAsking : conn.inMulti = true → next.txnAsking = conn.txnAsking

/-- The control verbs of a transaction are routed by no key. -/
theorem routedKeys_of_control (control : named controlNames (called request) = true) :
    routedKeys (called request) request = [] := by
  obtain ⟨name, listed, same⟩ := List.any_eq_true.mp control
  have each : ∀ name ∈ controlNames, Coord.classify (utf8 name) = .alwaysHome := by decide +kernel
  have home : Coord.classify (called request) = .alwaysHome := by
    rw [← beq_iff_eq.mp same]
    exact each name listed
  simp only [routedKeys, home]

section Router

variable {E κ ν : Type} [DecidableEq ν]

/-- The redirect let a command through, if it is a write. -/
def Passed (server : Server E κ ν) (map : SlotMap ν) (asking : Bool) (request : Request) : Prop :=
  isWrite (asciiUpper (command request)) = true → ∃ present, redirectForKeys server.endpoint server.self map
      (routedKeys (asciiUpper (command request)) request) false (some ⟨asking, present⟩) = none

/-- What is known where a command goes. -/
inductive Routes (server : Server E κ ν) (node : Node E κ ν) (request : Request) (conn : Conn κ) :
    Routed κ → Prop
  | answered {next : Conn κ} (prepared : conn.Prepared next) :
      Routes server node request conn (.answered next)
  | blocking {next : Conn κ} (prepared : conn.Prepared next) (alone : conn.inMulti = false)
      (blocks : isBlockingCommand (asciiUpper (command request)) = true) :
      Routes server node request conn (.blocking next conn.asking)
  | inside {next : Conn κ} {asking : Bool} (prepared : conn.Prepared next) (inMulti : conn.inMulti = true)
      (passed : Passed server node.map conn.txnAsking request) :
      Routes server node request conn (.home next asking)
  | home {next : Conn κ} {asking : Bool} (prepared : conn.Prepared next) (alone : conn.inMulti = false)
      (waits : isBlockingCommand (asciiUpper (command request)) = false)
      (passed : Passed server node.map asking request)
      (guarded : writeGuardrail server.minReplicasToWrite node.replicas.count
        (asciiUpper (command request)) request = none) :
      Routes server node request conn (.home next asking)
  | spread {next : Conn κ} {asking : Bool} {shards : List ℕ} (prepared : conn.Prepared next)
      (waits : isBlockingCommand (asciiUpper (command request)) = false)
      (passed : Passed server node.map asking request)
      (guarded : writeGuardrail server.minReplicasToWrite node.replicas.count
        (asciiUpper (command request)) request = none) :
      Routes server node request conn (.spread next asking shards)

variable {server : Server E κ ν} {request : Request} {node : Node E κ ν} {conn next : Conn κ} {asking : Bool}

theorem passed_of_clusterRedirect
    (passed : clusterRedirect server.endpoint server.self map (called request) request readonly
      inSync ctx = none) :
    Passed server map ctx.asking request := by
  intro write
  refine ⟨ctx.keyPresent, ?_⟩
  simpa [clusterRedirect, write] using passed

private theorem routes_routeInMulti (prepared : conn.Prepared next) (inMulti : conn.inMulti = true) :
    Routes server node request conn (routeInMulti server node now request next asking) := by
  have spoiled : conn.Prepared { next with dirtyExec := true } :=
    ⟨prepared.home, prepared.queued, prepared.inMulti, prepared.txnAsking⟩
  unfold routeInMulti
  dsimp only
  split
  · exact .answered spoiled
  next passed =>
    split
    · exact .answered spoiled
    split
    · exact .answered spoiled
    refine .inside prepared inMulti ?_
    rw [← prepared.txnAsking inMulti]
    exact passed_of_clusterRedirect passed

private theorem routes_routePlain (prepared : conn.Prepared next) (alone : conn.inMulti = false)
    (waits : isBlockingCommand (called request) = false) :
    Routes server node request conn (routePlain server node now request next asking) := by
  unfold routePlain
  dsimp only
  generalize (if named ["WATCH"] (called request) then request.drop 1 else []) = watched
  split
  · exact .answered prepared
  split
  · exact .answered prepared
  split
  · refine .answered ?_
    split
    · exact ⟨prepared.home, prepared.queued, prepared.inMulti, prepared.txnAsking⟩
    · exact prepared
  split
  · exact .answered prepared
  next passed =>
    have passed := passed_of_clusterRedirect passed
    split
    · exact .answered prepared
    next guarded =>
      split
      · exact .spread prepared waits passed guarded
      split
      · exact .spread prepared waits passed guarded
      · exact .home prepared alone waits passed guarded

theorem routes_route (server : Server E κ ν) (node : Node E κ ν) (now : ℕ) (request : Request)
    (conn : Conn κ) : Routes server node request conn (route server node now request conn) := by
  unfold route
  split
  · exact .answered ⟨rfl, rfl, rfl, fun _ => rfl⟩
  dsimp only
  generalize consumed : consumeOneShotAsking (called request) conn = outcome
  obtain ⟨asking, next⟩ := outcome
  have prepared : conn.Prepared next := by
    unfold consumeOneShotAsking at consumed
    split_ifs at consumed
    · cases consumed
      exact ⟨rfl, rfl, rfl, fun _ => rfl⟩
    · cases consumed
      exact ⟨rfl, rfl, rfl, fun _ => rfl⟩
  have asked : isBlockingCommand (called request) = true → asking = conn.asking := by
    intro blocks
    unfold consumeOneShotAsking at consumed
    split_ifs at consumed with asks
    · rw [named_eq_false blocks (by decide)] at asks
      cases asks
    · cases consumed
      rfl
  generalize opened : (if named ["MULTI"] (called request) && !next.inMulti then
    { next with txnAsking := asking } else next) = ready
  have prepared : conn.Prepared ready := by
    subst opened
    split_ifs with opens
    · refine ⟨prepared.home, prepared.queued, prepared.inMulti, fun inMulti => ?_⟩
      rw [← prepared.inMulti] at inMulti
      simp [inMulti] at opens
    · exact prepared
  have spoiled : conn.Prepared ready.dirtied :=
    ⟨prepared.home, prepared.queued, prepared.inMulti, prepared.txnAsking⟩
  split
  · exact .answered spoiled
  split
  · exact .answered spoiled
  split
  · exact .answered ⟨prepared.home, prepared.queued, prepared.inMulti, prepared.txnAsking⟩
  split
  · next inMulti =>
      exact routes_routeInMulti prepared (prepared.inMulti.symm.trans inMulti)
  next alone =>
    have alone : conn.inMulti = false :=
      prepared.inMulti.symm.trans (Bool.eq_false_iff.mpr alone)
    split
    · next blocks =>
        rw [asked blocks]
        exact .blocking prepared alone blocks
    · next waits => exact routes_routePlain prepared alone (Bool.eq_false_iff.mpr waits)

end Router

end IronCache.Serve
