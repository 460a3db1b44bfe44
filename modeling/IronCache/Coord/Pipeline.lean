import IronCache.Coord.Routing
import IronCache.Protocol.Encode
import IronCache.Store.Shard

/-!
# Pipelined requests

The connection loop (`serve_conn_loop.rs`, `serve_hop.rs`) parks the hops to other shards and sends
them when the next other command has run, or at the end of the batch.
-/

namespace IronCache.Coord

open Protocol Scatter
open List

variable {σ κ : Type}

structure DeferredHop where
  target : ℕ
  db : ℕ
  request : Request
  proto : ProtoVersion

structure Session (σ κ : Type) where
  conn : ConnState κ
  shards : ℕ → σ
  out : List Reply
  closed : Bool

structure Loop (σ κ : Type) extends Session σ κ where
  pending : List DeferredHop

/-- The work of a parked hop, sent with a database. -/
def DeferredHop.query (db : ℕ) (hop : DeferredHop) : ℕ × Work κ :=
  (hop.target, .unit db hop.request)

def encodeHopReply (hop : DeferredHop) (answer : Option (Answer κ)) : Reply :=
  (hop.proto, (answer.bind Answer.value?).getD (.error (.err shardUnavailableMsg)))

section

variable (engine : Engine σ κ)

/-- All hops of a run are sent with the database of the first, in one batch for each shard. -/
def drainDeferredHops (pending : List DeferredHop) (shards : ℕ → σ) : List Reply × (ℕ → σ) :=
  match pending with
  | [] => ([], shards)
  | [hop] =>
    let (answer, state) := engine.serve (shards hop.target) (.unit hop.db hop.request)
    ([encodeHopReply hop (some answer)], Function.update shards hop.target state)
  | first :: rest =>
    let queries := (first :: rest).map (DeferredHop.query first.db)
    let targets := ((first :: rest).map (·.target)).dedup
    let (results, shards) := serveBuckets engine.serve queries targets shards
    (((first :: rest).zip (slotsFrom [] queries)).map fun (hop, slot) =>
      encodeHopReply hop (results slot.1)[slot.2]?, shards)

/-- Sends what is parked, behind the replies there are. -/
def Loop.drain (loop : Loop σ κ) : Loop σ κ :=
  let (replies, shards) := drainDeferredHops engine loop.pending loop.shards
  { loop with shards := shards, out := loop.out ++ replies, pending := [] }

/-- One request of a batch. A hop is parked. Any other command runs at once; only then are the
parked hops sent, and their replies are put before its own. -/
def serveRequest (home : ShardId) (loop : Loop σ κ) (request : Request) :
    Loop σ κ :=
  if loop.closed then loop
  else
    match routeAndDispatch engine home loop.conn request with
    | .deferred shard =>
      let hop := ⟨shard, loop.conn.db, request, loop.conn.proto⟩
      { loop with pending := loop.pending ++ [hop] }
    | .answered plan =>
      let (answered, shards) := plan.run engine.serve loop.shards
      let drained := Loop.drain engine { loop with shards := shards }
      { drained with
        conn := answered.conn
        out := drained.out ++ [answered.reply]
        closed := answered.close }

def serveBatch (home : ShardId) (session : Session σ κ) (batch : List Request) : Session σ κ :=
  ((batch.foldl (serveRequest engine home) ⟨session, []⟩).drain engine).toSession

/-- The same requests one at a time, each sent when the one before it was replied to. -/
def serveOneByOne (home : ShardId) (session : Session σ κ) (batch : List Request) : Session σ κ :=
  batch.foldl (fun session request => serveBatch engine home session [request]) session

end

variable {engine : Engine σ κ} {home : ShardId} {pending : List DeferredHop} {request : Request}
  {shard db : ℕ} {loop : Loop σ κ}

private theorem serveRequest_deferred (serving : session.closed = false)
    (deferred : routeAndDispatch engine home session.conn request = .deferred shard) :
    serveRequest engine home ⟨session, pending⟩ request =
      ⟨session, pending ++ [⟨shard, session.conn.db, request, session.conn.proto⟩]⟩ := by
  unfold serveRequest
  rw [if_neg (by simp [serving])]
  simp only [deferred]

@[simp] theorem drainDeferredHops_nil (engine : Engine σ κ) (shards : ℕ → σ) :
    drainDeferredHops engine [] shards = ([], shards) :=
  rfl

/-- The hops of a run as a program. -/
def hopsPlan (db : ℕ) (pending : List DeferredHop) : Plan κ (List (Answer κ)) :=
  .scatter (pending.map (DeferredHop.query db)) .done

private theorem hopsPlan_asks (asks : (hopsPlan (κ := κ) db pending).Asks shard) :
    ∃ hop ∈ pending, hop.target = shard := by
  cases asks with
  | now listed =>
    obtain ⟨hop, parked, same⟩ := mem_map.1 listed
    exact ⟨hop, parked, congrArg Prod.fst same⟩
  | later answers asks => cases asks

private theorem map_zip_map {α β γ δ : Type} (f : α → γ → δ) (g : β → γ) (xs : List α) (ys : List β) :
    (xs.zip (ys.map g)).map (fun pair => f pair.1 pair.2) =
      (xs.zip ys).map fun pair => f pair.1 (g pair.2) := by
  rw [zip_map_right, map_map]
  rfl

/-- A run of hops is answered as if they were sent one by one. -/
theorem drainDeferredHops_eq (shared : ∀ hop ∈ pending, hop.db = db) :
    drainDeferredHops engine pending shards =
      ((pending.zip (serveAll engine.serve (pending.map (DeferredHop.query db)) shards).1).map
          fun pair => encodeHopReply pair.1 (some pair.2),
        (serveAll engine.serve (pending.map (DeferredHop.query db)) shards).2) := by
  match pending with
  | [] => rfl
  | [hop] =>
    obtain rfl := shared hop (mem_singleton_self hop)
    rfl
  | first :: second :: rest =>
    obtain rfl := shared first (mem_cons_self ..)
    have covered : ∀ query ∈ (first :: second :: rest).map (DeferredHop.query (κ := κ) first.db),
        query.1 ∈ ((first :: second :: rest).map (·.target)).dedup := by
      intro query member
      obtain ⟨hop, parked, rfl⟩ := mem_map.1 member
      exact mem_dedup.2 (mem_map_of_mem parked)
    obtain ⟨answers, states⟩ := @serveBuckets_eq ℕ (Work κ) (Answer κ) σ _ engine.serve _ _
      (nodup_dedup _) covered shards
    simp only [drainDeferredHops]
    rw [← states, ← map_zip_map encodeHopReply some, ← answers, map_zip_map encodeHopReply]

private theorem drainDeferredHops_concat (engine : Engine σ κ) {hop : DeferredHop}
    (shared : ∀ parked ∈ pending, parked.db = hop.db) (shards : ℕ → σ) :
    drainDeferredHops engine (pending ++ [hop]) shards =
      ((drainDeferredHops engine pending shards).1 ++
          (drainDeferredHops engine [hop] (drainDeferredHops engine pending shards).2).1,
        (drainDeferredHops engine [hop] (drainDeferredHops engine pending shards).2).2) := by
  have all : ∀ parked ∈ pending ++ [hop], parked.db = hop.db := by
    intro parked member
    rcases mem_append.1 member with earlier | last
    · exact shared parked earlier
    · rw [mem_singleton.1 last]
  have last : ∀ parked ∈ [hop], parked.db = hop.db := fun parked member =>
    all parked (mem_append_right _ member)
  rw [drainDeferredHops_eq all, drainDeferredHops_eq shared,
    drainDeferredHops_eq last, map_append, serveAll_append]
  rw [zip_append (by rw [length_serveAll, length_map]), map_append]

/-- A program that asks no shard of a parked hop may as well run after the hops. -/
private theorem drainDeferredHops_comm (shared : ∀ hop ∈ pending, hop.db = db) {R : Type} {plan : Plan κ R}
    (apart : ∀ hop ∈ pending, ¬plan.Asks hop.target) :
    (drainDeferredHops engine pending (plan.run engine.serve shards).2).1 =
        (drainDeferredHops engine pending shards).1 ∧
      (plan.run engine.serve (drainDeferredHops engine pending shards).2).1 =
        (plan.run engine.serve shards).1 ∧
      (drainDeferredHops engine pending (plan.run engine.serve shards).2).2 =
        (plan.run engine.serve (drainDeferredHops engine pending shards).2).2 := by
  have disjoint : ∀ shard, (hopsPlan (κ := κ) db pending).Asks shard → ¬plan.Asks shard := by
    intro shard asks
    obtain ⟨hop, parked, rfl⟩ := hopsPlan_asks asks
    exact apart hop parked
  obtain ⟨replies, result, states⟩ :=
    @Program.run_comm _ _ _ _ _ _ engine.serve _ _ _ disjoint shards
  rw [drainDeferredHops_eq shared, drainDeferredHops_eq shared]
  exact ⟨congrArg (fun answers => (pending.zip answers).map _) replies, result, states⟩

/-- The condition on a request: the shards of the hops that are parked when it comes are not among
those it asks, unless it is a hop itself. -/
def Loop.Clear (engine : Engine σ κ) (home : ShardId) (loop : Loop σ κ) (request : Request) : Prop :=
  ∀ plan, routeAndDispatch engine home loop.conn request = .answered plan →
    ∀ hop ∈ loop.pending, ¬plan.Asks hop.target

/-- Every request of a batch meets the condition when it comes. -/
def Loop.ClearThroughout (engine : Engine σ κ) (home : ShardId) : Loop σ κ → List Request → Prop
  | _, [] => True
  | loop, request :: rest =>
    loop.Clear engine home request ∧ (serveRequest engine home loop request).ClearThroughout engine home rest

/-- The parked hops are for the database the connection is in. -/
def Loop.Uniform (loop : Loop σ κ) : Prop := ∀ hop ∈ loop.pending, hop.db = loop.conn.db

theorem Loop.Uniform.serveRequest (uniform : loop.Uniform) (request : Request) :
    (serveRequest engine home loop request).Uniform := by
  unfold Coord.serveRequest
  split_ifs with closed
  · exact uniform
  split
  · intro hop parked
    rcases mem_append.1 parked with earlier | last
    · exact uniform hop earlier
    · rw [mem_singleton.1 last]
  · intro hop parked
    exact absurd parked not_mem_nil

/-- Sending the parked hops first makes no difference to what a request does. -/
private theorem serveRequest_drain (uniform : loop.Uniform) (clear : loop.Clear engine home request) :
    ((serveRequest engine home loop request).drain engine) =
      (serveRequest engine home (loop.drain engine) request).drain engine := by
  unfold serveRequest
  by_cases closed : loop.closed = true
  · have still : (loop.drain engine).closed = true := closed
    rw [if_pos closed, if_pos still]
    simp [Loop.drain]
  have still : ¬(loop.drain engine).closed = true := closed
  rw [if_neg closed, if_neg still]
  have same : (loop.drain engine).conn = loop.conn := rfl
  rw [same]
  cases routed : routeAndDispatch engine home loop.conn request with
  | deferred shard =>
    have together := @drainDeferredHops_concat _ _ _ engine
      ⟨shard, loop.conn.db, request, loop.conn.proto⟩ uniform loop.shards
    simp only [Loop.drain, nil_append]
    rw [together, append_assoc]
  | answered plan =>
    obtain ⟨replies, result, states⟩ :=
      drainDeferredHops_comm uniform (clear plan routed)
    simp only [Loop.drain, drainDeferredHops_nil, append_nil]
    rw [replies, result, states]

private theorem drain_foldl_serveRequest (uniform : loop.Uniform)
    (clear : loop.ClearThroughout engine home batch) :
    ((batch.foldl (serveRequest engine home) loop).drain engine).toSession =
      serveOneByOne engine home (loop.drain engine).toSession batch := by
  induction batch generalizing loop with
  | nil => rfl
  | cons request batch ih =>
    refine (ih (uniform.serveRequest request) clear.2).trans ?_
    rw [serveRequest_drain uniform clear.1]
    rfl

/-- A batch of requests gives the replies and leaves the shards that the requests give and leave
when they are sent one at a time, if no command that runs while hops are parked asks their shards. -/
theorem serveBatch_eq_serveOneByOne {engine : Engine σ κ} {home : ShardId} {session : Session σ κ}
    {batch : List Request} (clear : Loop.ClearThroughout engine home ⟨session, []⟩ batch) :
    serveBatch engine home session batch = serveOneByOne engine home session batch := by
  have uniform : Loop.Uniform (⟨session, []⟩ : Loop σ κ) := fun hop parked =>
    absurd parked not_mem_nil
  refine (drain_foldl_serveRequest uniform clear).trans ?_
  simp [Loop.drain]

/-- `SET` without options and `DBSIZE` on a store, at one fixed time. -/
def runPlain (store : Store.ShardStore Store.NullEviction) (db : ℕ) :
    Request → Value × Store.ShardStore Store.NullEviction
  | [verb, key, value] =>
    if asciiUpper verb = utf8 "SET" then
      (.ok, (store.upsert db key (.bytes value) .clear 0).2)
    else (.error (.wrongArity "dbsize"), store)
  | [verb] =>
    if asciiUpper verb = utf8 "DBSIZE" then (.integer (.ofNat (store.dbLen db)), store)
    else (.error (.wrongArity "set"), store)
  | _ => (.error .syntaxError, store)

/-- Plain `SET` and `DBSIZE`, which need nothing of the connection but its database. -/
def plainEngine : Engine (Store.ShardStore Store.NullEviction) Unit where
  databases := 1
  run := runPlain
  handleRequest store conn request _ :=
    let (value, store) := runPlain store conn.db request
    (⟨(conn.proto, value), false, conn⟩, store)
  nextU64 store := (0, store)
  spanningCombine _ _ _ := .done .null
  serveLayer _ _ _ := none
  unknownCommand _ := .syntaxError

def emptySession : Session (Store.ShardStore Store.NullEviction) Unit where
  conn := ⟨0, .resp2, false, [], false, ()⟩
  shards _ := .withHooks 1 {}
  out := []
  closed := false

def setRequest (key : String) : Request := [utf8 "SET", utf8 key, utf8 "v"]

def Session.sent (session : Session σ κ) : Bytes :=
  session.out.flatMap fun reply => encode (fun _ => []) reply.1 reply.2

/-- Two writes to the other shard and one at home: the last one runs before the first two are sent,
and this shows nowhere. -/
theorem serveBatch_eq_serveOneByOne_sets :
    serveBatch plainEngine ⟨0, 2⟩ emptySession [setRequest "a", setRequest "d", setRequest "b"] =
      serveOneByOne plainEngine ⟨0, 2⟩ emptySession [setRequest "a", setRequest "d", setRequest "b"] := by
  have first : routeAndDispatch plainEngine ⟨0, 2⟩ emptySession.conn (setRequest "a") =
      .deferred 1 := Outcome.eq_deferred (by decide +kernel)
  have second : routeAndDispatch plainEngine ⟨0, 2⟩ emptySession.conn (setRequest "d") =
      .deferred 1 := Outcome.eq_deferred (by decide +kernel)
  have third : routeAndDispatch plainEngine ⟨0, 2⟩ emptySession.conn (setRequest "b") =
      .answered (homeRequest ⟨0, 2⟩ emptySession.conn (setRequest "b") none) :=
    routeAndDispatch_home rfl rfl (by decide +kernel)
      (Option.isNone_iff_eq_none.1 (by decide +kernel)) (by decide +kernel)
  apply serveBatch_eq_serveOneByOne
  refine ⟨fun plan routed hop parked => absurd parked not_mem_nil, ?_⟩
  rw [serveRequest_deferred rfl first]
  refine ⟨fun plan routed => absurd (second.symm.trans routed) (by simp), ?_⟩
  rw [serveRequest_deferred rfl second]
  refine ⟨fun plan routed hop parked asks => ?_, trivial⟩
  cases third.symm.trans routed
  have home := homeRequest_asks asks
  simp only [nil_append, cons_append, mem_cons, not_mem_nil, or_false] at parked
  rcases parked with rfl | rfl <;> cases home

/-- `DBSIZE` behind a write to the other shard: the write is counted when the two are sent one at a
time, and not when they are sent at once. -/
theorem dbsize_overtakes_set :
    (serveBatch plainEngine ⟨0, 2⟩ emptySession [setRequest "a", [utf8 "DBSIZE"]]).sent =
        utf8 "+OK\r\n:0\r\n" ∧
      (serveOneByOne plainEngine ⟨0, 2⟩ emptySession [setRequest "a", [utf8 "DBSIZE"]]).sent =
        utf8 "+OK\r\n:1\r\n" := by
  decide +kernel

end IronCache.Coord
