import IronCache.Serve.Block
import IronCache.Serve.Redirect
import IronCache.Store.Watch

/-!
# A node of a cluster

The ways of a command to the stores of a node (`serve_routing.rs`, `serve_txn_block.rs`,
`dispatch.rs`, `dispatch_txn.rs`): at once, over a hop, queued, or parked.
-/

namespace IronCache

open Function

namespace Protocol

def ErrorReply.execAbort : ErrorReply where
  code := .execAbort
  message := utf8 "Transaction discarded because of previous errors."

def ErrorReply.execWithoutMulti : ErrorReply := .err (utf8 "EXEC without MULTI")

def ErrorReply.discardWithoutMulti : ErrorReply := .err (utf8 "DISCARD without MULTI")

def ErrorReply.multiNested : ErrorReply := .err (utf8 "MULTI calls can not be nested")

def ErrorReply.watchInsideMulti : ErrorReply := .err (utf8 "WATCH inside MULTI is not allowed")

end Protocol

namespace Serve

open Protocol (Request ErrorReply utf8 keySlot)
open Cluster Coord Store

/-- A connection, with the shard that accepted it. What `rest` holds belongs to the handlers. -/
structure Conn (κ : Type) where
  home : ℕ
  rest : κ
  db : ℕ := 0
  inMulti : Bool := false
  queued : List Request := []
  dirtyExec : Bool := false
  watch : List WatchEntry := []
  readonly : Bool := false
  asking : Bool := false
  txnAsking : Bool := false

namespace Conn

variable {κ : Type}

def enterMulti (conn : Conn κ) : Conn κ :=
  { conn with inMulti := true, queued := [], dirtyExec := false }

/-- Leaves the transaction, whatever was queued. -/
def clearTxn (conn : Conn κ) : Conn κ :=
  { conn with inMulti := false, queued := [], dirtyExec := false, txnAsking := false }

def clearWatch (conn : Conn κ) : Conn κ := { conn with watch := [] }

/-- A bad command inside `MULTI` spoils the transaction. -/
def dirtied (conn : Conn κ) : Conn κ := { conn with dirtyExec := conn.dirtyExec || conn.inMulti }

end Conn

/-- The node's own settings, and what the router leaves to others: the handlers of the data commands
and of the other commands, the check of a command to be queued, the permissions asked again by
`EXEC`, and the gates and commands that the serve layer answers by itself. -/
structure Server (E κ ν : Type) where
  self : ν
  shards : ℕ
  minReplicasToWrite : ℕ
  endpoint : ν → Bytes
  timeouts : Timeouts
  human : F64 → Bytes
  keyed : (db now : ℕ) → Request → ShardStore E → Protocol.Value × ShardStore E
  connection : (now : ℕ) → Request → ℕ × κ → ShardStore E → Protocol.Value × (ℕ × κ) × ShardStore E
  resetRest : κ → κ
  queueValidate : Request → Option ErrorReply
  aclEnforce : κ → Request → Option ErrorReply
  gate : Conn κ → Request → Option κ
  intercept : Conn κ → Request → Option κ

/-- How a command came to its store: routed on arrival, with the replicas then in sync, out of a
queue, or as a blocking command. -/
inductive Origin where
  | routed (inSync : ℕ)
  | queued
  | blocking
deriving DecidableEq

/-- One command run against the store of a shard, for a connection that had or had not asked. -/
structure Run (E : Type) where
  conn : ℕ
  origin : Origin
  asking : Bool
  shard : ℕ
  db : ℕ
  now : ℕ
  request : Request
  before : ShardStore E
  after : ShardStore E

/-- What a reader sees of a key: the value and the deadline of an entry that is not due. -/
def seen (now idx : ℕ) (key : Bytes) (store : ShardStore E) : Option (Store.Value × Option ℕ) :=
  ((store.find idx key).filter (!·.isExpired now)).map fun entry => (entry.value, entry.expireAt)

/-- The run leaves something else to be seen of a key, in one of the databases. -/
def Run.Changes (run : Run E) (key : Bytes) : Prop :=
  ∃ idx, seen run.now idx key run.after ≠ seen run.now idx key run.before

/-- What a command leaves: its reply, the connection, the store and what was run. -/
structure Effect (E κ : Type) where
  reply : Protocol.Value
  conn : Conn κ
  store : ShardStore E
  runs : List (Run E) := []

section Dispatch

variable {E κ ν : Type} [EvictionHook E]

/-- A watch remembers the version of every key. -/
def cmdWatch (now : ℕ) (request : Request) (conn : Conn κ) (store : ShardStore E) : Effect E κ :=
  if request.length < 2 then ⟨.error (.wrongArity "watch"), conn.dirtied, store, []⟩
  else if conn.inMulti then ⟨.error .watchInsideMulti, conn, store, []⟩
  else
    let (watch, store) := (request.drop 1).foldl (fun (watch, store) key =>
      let (entry, store) := store.watchSnapshot conn.db key now
      (watch ++ [entry], store)) (conn.watch, store)
    ⟨.ok, { conn with watch := watch }, store, []⟩

def unwatchAll (conn : Conn κ) (store : ShardStore E) : Conn κ × ShardStore E :=
  (conn.clearWatch, store.unwatch conn.watch)

/-- A command that takes no arguments. -/
def bare (name : String) (request : Request) (conn : Conn κ) (store : ShardStore E)
    (effect : Effect E κ) : Effect E κ :=
  if request.length ≠ 1 then ⟨.error (.wrongArity name), conn.dirtied, store, []⟩ else effect

/-- Every command but `EXEC`. -/
def dispatchInner (server : Server E κ ν) (now : ℕ) (request : Request) (conn : Conn κ)
    (store : ShardStore E) : Effect E κ :=
  let cmdUpper := asciiUpper (command request)
  if named ["MULTI"] cmdUpper then
    bare "multi" request conn store <| if conn.inMulti then ⟨.error .multiNested, conn, store, []⟩
      else ⟨.ok, conn.enterMulti, store, []⟩
  else if named ["DISCARD"] cmdUpper then
    bare "discard" request conn store <| if !conn.inMulti then ⟨.error .discardWithoutMulti, conn, store, []⟩
      else
        let (conn, store) := unwatchAll conn store
        ⟨.ok, conn.clearTxn, store, []⟩
  else if named ["WATCH"] cmdUpper then cmdWatch now request conn store
  else if named ["UNWATCH"] cmdUpper then
    if request.length ≠ 1 then ⟨.error (.wrongArity "unwatch"), conn, store, []⟩
    else
      let (conn, store) := unwatchAll conn store
      ⟨.ok, conn, store, []⟩
  else if named ["RESET"] cmdUpper then
    let (conn, store) := unwatchAll conn store
    ⟨.simpleString (utf8 "RESET"),
      { conn.clearTxn with
        db := 0, rest := server.resetRest conn.rest, readonly := false, asking := false },
      store, []⟩
  else if named ["READONLY"] cmdUpper then
    if request.length ≠ 1 then ⟨.error (.wrongArity "readonly"), conn, store, []⟩
    else ⟨.ok, { conn with readonly := true }, store, []⟩
  else if named ["READWRITE"] cmdUpper then
    if request.length ≠ 1 then ⟨.error (.wrongArity "readwrite"), conn, store, []⟩
    else ⟨.ok, { conn with readonly := false }, store, []⟩
  else if named ["ASKING"] cmdUpper then
    if request.length ≠ 1 then ⟨.error (.wrongArity "asking"), conn, store, []⟩
    else ⟨.ok, { conn with asking := true }, store, []⟩
  else if isBlockingCommand cmdUpper && !named ["WAIT"] cmdUpper then
    let (reply, store) :=
      cmdBlockNonblocking server.timeouts server.human conn.db now cmdUpper request store
    ⟨reply, conn, store, []⟩
  else
    match Coord.classify cmdUpper with
    | .alwaysHome =>
      let (reply, (db, rest), store) := server.connection now request (conn.db, conn.rest) store
      ⟨reply, { conn with db := db, rest := rest }, store, []⟩
    | .keyedSingle | .keyedMulti | .wholeKeyspace =>
      let (reply, store) := server.keyed conn.db now request store
      ⟨reply, conn, store, []⟩

/-- The batch of a transaction, one command after the other, on the store of its shard. -/
def replay (server : Server E κ ν) (now c : ℕ) (asking : Bool) :
    List Request → Conn κ → ShardStore E → List Protocol.Value × Effect E κ
  | [], conn, store => ([], ⟨.ok, conn, store, []⟩)
  | request :: rest, conn, store =>
    match server.aclEnforce conn.rest request with
    | some denied =>
      let (replies, effect) := replay server now c asking rest conn store
      (.error denied :: replies, effect)
    | none =>
      let first := dispatchInner server now request conn store
      let run := ⟨c, .queued, asking, conn.home, conn.db, now, request, store, first.store⟩
      let (replies, effect) := replay server now c asking rest first.conn first.store
      (first.reply :: replies, { effect with runs := run :: effect.runs })

/-- Whether one of some watches is dirty; the answer may reap a key that is due. -/
def anyDirty (now : ℕ) : List WatchEntry → ShardStore E → Bool × ShardStore E
  | [], store => (false, store)
  | entry :: rest, store =>
    match store.watchIsDirty entry now with
    | (true, store) => (true, store)
    | (false, store) => anyDirty now rest store

/-- The queue runs unless it was spoiled or a watched key has changed. -/
def execTransaction (server : Server E κ ν) (now c : ℕ) (request : Request) (conn : Conn κ)
    (store : ShardStore E) : Effect E κ :=
  bare "exec" request conn store <| if !conn.inMulti then ⟨.error .execWithoutMulti, conn, store, []⟩
    else if conn.dirtyExec then
      let (conn, store) := unwatchAll conn store
      ⟨.error .execAbort, conn.clearTxn, store, []⟩
    else
      match anyDirty now conn.watch store with
      | (true, store) =>
        let (conn, store) := unwatchAll conn store
        ⟨.array none, conn.clearTxn, store, []⟩
      | (false, store) =>
        let (cleared, store) := unwatchAll conn store
        let (replies, effect) :=
          replay server now c conn.txnAsking conn.queued cleared.clearTxn store
        { effect with reply := .array (some replies) }

def controlNames : List String := ["MULTI", "EXEC", "DISCARD", "RESET", "QUIT", "WATCH"]

/-- The home dispatch: a transaction queues all but its control verbs. -/
def handleRequest (server : Server E κ ν) (now c inSync : ℕ) (asking : Bool) (request : Request)
    (conn : Conn κ) (store : ShardStore E) : Effect E κ :=
  let cmdUpper := asciiUpper (command request)
  if conn.inMulti && !named controlNames cmdUpper then
    match server.queueValidate request with
    | some error => ⟨.error error, { conn with dirtyExec := true }, store, []⟩
    | none =>
      ⟨.simpleString (utf8 "QUEUED"), { conn with queued := conn.queued ++ [request] }, store, []⟩
  else if named ["EXEC"] cmdUpper then execTransaction server now c request conn store
  else
    let effect := dispatchInner server now request conn store
    { effect with
      runs := [⟨c, .routed inSync, asking, conn.home, conn.db, now, request, store, effect.store⟩] }

end Dispatch

/-- A connection that waits for a key. -/
structure BlockPark where
  spec : BlockSpec
  db : ℕ
  request : Request
  asking : Bool

/-- A command on its way to another shard. -/
structure Hop where
  conn : ℕ
  inSync : ℕ
  asking : Bool
  shard : ℕ
  db : ℕ
  request : Request

/-- The replicas that count as in sync, each told by its own connection, and their number. -/
structure InSyncReplicas where
  counted : ℕ → Bool := fun _ => false
  count : ℕ := 0

/-- The count changes only with the mark of the replica. -/
def InSyncReplicas.setReplicaInSync (replica : ℕ) (inSync : Bool) (replicas : InSyncReplicas) :
    InSyncReplicas :=
  match replicas.counted replica, inSync with
  | false, true => ⟨update replicas.counted replica true, replicas.count + 1⟩
  | true, false => ⟨update replicas.counted replica false, replicas.count - 1⟩
  | _, _ => replicas

def InSyncReplicas.replicaGone (replica : ℕ) (replicas : InSyncReplicas) : InSyncReplicas :=
  if replicas.counted replica then
    ⟨update replicas.counted replica false, replicas.count - 1⟩
  else replicas

/-- The shards of a node, its connections and what is under way between them. -/
structure Node (E κ ν : Type) where
  map : SlotMap ν
  stores : ℕ → ShardStore E
  conns : ℕ → Conn κ
  parked : ℕ → Option BlockPark := fun _ => none
  pending : List Hop := []
  replicas : InSyncReplicas := {}
  replicaInSync : Bool := false

/-- What happens to a node: a command comes, a forwarded one runs, a parked connection is woken or
leaves, the map changes, a replica is counted or gone, the node's own replication falls behind. -/
inductive Event (ν : Type) where
  | command (c now : ℕ) (request : Request)
  | serve (shard now : ℕ)
  | attempt (c now : ℕ)
  | leave (c : ℕ)
  | remapped (map : SlotMap ν)
  | replica (replica : ℕ) (inSync : Bool)
  | replicaGone (replica : ℕ)
  | replicaRead (inSync : Bool)

/-- Where a command goes, with the connection as the router leaves it. -/
inductive Routed (κ : Type) where
  | answered (conn : Conn κ)
  | blocking (conn : Conn κ) (asking : Bool)
  | home (conn : Conn κ) (asking : Bool)
  | spread (conn : Conn κ) (asking : Bool) (shards : List ℕ)

def pubsubNames : List String :=
  ["SUBSCRIBE", "UNSUBSCRIBE", "PSUBSCRIBE", "PUNSUBSCRIBE", "PUBLISH", "PUBSUB", "SSUBSCRIBE",
   "SUNSUBSCRIBE", "SPUBLISH"]

/-- The flag is for the next command, and `ASKING` is not that command. -/
def consumeOneShotAsking (cmdUpper : Bytes) (conn : Conn κ) : Bool × Conn κ :=
  if named ["ASKING"] cmdUpper then (false, conn) else (conn.asking, { conn with asking := false })

/-- The shards of a command on the whole keyspace; `SCAN` names one by its cursor. -/
def wholeKeyspaceShards (shards : ℕ) (cmdUpper : Bytes) (request : Request) : List ℕ :=
  if named ["SCAN"] cmdUpper then
    match request[1]?.bind fromToken with
    | some cursor =>
      let shard := (decompose cursor shards).1
      if shard < shards then [shard] else []
    | none => []
  else List.range shards

section Router

variable {E κ ν : Type} [EvictionHook E] [DecidableEq ν]

/-- Asks without reaping. -/
def containsLive (db : ℕ) (key : Bytes) (now : ℕ) (store : ShardStore E) : Bool :=
  (store.find (store.dbIndex db) key).any (!·.isExpired now)

variable (server : Server E κ ν)

variable (node : Node E κ ν)

/-- Inside a transaction a command is refused or goes home, where it is queued. -/
def routeInMulti (now : ℕ) (request : Request) (conn : Conn κ) (asking : Bool) : Routed κ :=
  let cmdUpper := asciiUpper (command request)
  let home : ShardId := ⟨conn.home, server.shards⟩
  let present := fun key => containsLive conn.db key now (node.stores conn.home)
  match clusterRedirect server.endpoint server.self node.map cmdUpper request conn.readonly
      node.replicaInSync ⟨conn.txnAsking, present⟩ with
  | some _ => .answered { conn with dirtyExec := true }
  | none =>
    if !allKeysHomeOwned cmdUpper request home then .answered { conn with dirtyExec := true }
    else if Coord.classify cmdUpper = .wholeKeyspace ∧ 1 < server.shards then
      .answered { conn with dirtyExec := true }
    else .home conn asking

/-- Any other command. Keys that pass the redirect are of one slot, so no command spans shards. -/
def routePlain (now : ℕ) (request : Request) (conn : Conn κ) (asking : Bool) : Routed κ :=
  let cmdUpper := asciiUpper (command request)
  let home : ShardId := ⟨conn.home, server.shards⟩
  let present := fun key =>
    containsLive conn.db key now (node.stores (ownerShard key server.shards))
  let watched := if named ["WATCH"] cmdUpper then request.drop 1 else []
  if (redirectForKeys server.endpoint server.self node.map watched false none).isSome then
    .answered conn
  else if watched.any (!isHome home ·) then .answered conn
  else if named ["ASKING"] cmdUpper then
    .answered (if request.length = 1 then { conn with asking := true } else conn)
  else
    match clusterRedirect server.endpoint server.self node.map cmdUpper request conn.readonly
        node.replicaInSync ⟨asking, present⟩ with
    | some _ => .answered conn
    | none =>
      match writeGuardrail server.minReplicasToWrite node.replicas.count cmdUpper request with
      | some _ => .answered conn
      | none =>
        if Coord.classify cmdUpper = .wholeKeyspace then
          .spread conn asking (wholeKeyspaceShards server.shards cmdUpper request)
        else
          match target cmdUpper request home with
          | some shard => .spread conn asking [shard]
          | none => .home conn asking

/-- `route_and_dispatch`, up to the point where something runs. -/
def route (now : ℕ) (request : Request) (conn : Conn κ) : Routed κ :=
  match server.gate conn request with
  | some rest => .answered { conn with rest := rest }
  | none =>
    let cmdUpper := asciiUpper (command request)
    let (asking, conn) := consumeOneShotAsking cmdUpper conn
    let conn :=
      if named ["MULTI"] cmdUpper && !conn.inMulti then { conn with txnAsking := asking } else conn
    if named internalVerbs cmdUpper then .answered conn.dirtied
    else if conn.inMulti && named pubsubNames cmdUpper then .answered conn.dirtied
    else
      match server.intercept conn request with
      | some rest => .answered { conn with rest := rest }
      | none =>
        if conn.inMulti then routeInMulti server node now request conn asking
        else if isBlockingCommand cmdUpper then .blocking conn asking
        else routePlain server node now request conn asking

/-- A blocking command tries at once, and is parked where it finds nothing. `WAIT` touches no key. -/
def handleBlockingLive (c now : ℕ)
    (request : Request) (conn : Conn κ) (asking : Bool) : Node E κ ν × List (Run E) :=
  let node := { node with conns := update node.conns c conn }
  let cmdUpper := asciiUpper (command request)
  if named ["WAIT"] cmdUpper then (node, [])
  else
    match parseBlock server.timeouts cmdUpper request with
    | .error _ => (node, [])
    | .ok spec =>
      let store := node.stores conn.home
      let (reply, after) := tryBlockOp server.human conn.db now spec store
      let run := ⟨c, .blocking, asking, conn.home, conn.db, now, request, store, after⟩
      let node := { node with stores := update node.stores conn.home after }
      match reply with
      | some _ => (node, [run])
      | none =>
        let park := ⟨spec, conn.db, request, asking⟩
        ({ node with parked := update node.parked c (some park) }, [run])

/-- Runs the command on the connection's own shard. -/
def handleHome (c now : ℕ) (request : Request) (conn : Conn κ) (asking : Bool) : Node E κ ν × List (Run E) :=
  let effect := handleRequest server now c node.replicas.count asking request conn (node.stores conn.home)
  ({ node with
      conns := update node.conns c effect.conn
      stores := update node.stores conn.home effect.store }, effect.runs)

def forward (c : ℕ) (request : Request) (conn : Conn κ) (asking : Bool) (shards : List ℕ) : Node E κ ν :=
  { node with
    conns := update node.conns c conn
    pending := node.pending ++ shards.map fun shard =>
      ⟨c, node.replicas.count, asking, shard, conn.db, request⟩ }

/-- The oldest hop of the shard is served first. -/
def serveHop (shard now : ℕ) : Node E κ ν × List (Run E) :=
  match node.pending.find? (·.shard = shard) with
  | none => (node, [])
  | some hop =>
    let before := node.stores shard
    let after := (server.keyed hop.db now hop.request before).2
    ({ node with
        stores := update node.stores shard after
        pending := node.pending.eraseP (·.shard = shard) },
      [⟨hop.conn, .routed hop.inSync, hop.asking, shard, hop.db, now, hop.request, before, after⟩])

/-- A parked connection tries again, and goes on waiting where it still finds nothing. -/
def attempt (c now : ℕ) : Node E κ ν × List (Run E) :=
  match node.parked c with
  | none => (node, [])
  | some park =>
    let shard := (node.conns c).home
    let before := node.stores shard
    let (reply, after) := tryBlockOp server.human park.db now park.spec before
    let run := ⟨c, .blocking, park.asking, shard, park.db, now, park.request, before, after⟩
    let parked := if reply.isSome then update node.parked c none else node.parked
    ({ node with stores := update node.stores shard after, parked := parked }, [run])

/-- One event, and the commands it ran. -/
def Node.step : Event ν → Node E κ ν × List (Run E)
  | .command c now request =>
    if (node.parked c).isSome then (node, [])
    else
      match route server node now request (node.conns c) with
      | .answered conn => ({ node with conns := update node.conns c conn }, [])
      | .blocking conn asking => handleBlockingLive server node c now request conn asking
      | .home conn asking => handleHome server node c now request conn asking
      | .spread conn asking shards => (forward node c request conn asking shards, [])
  | .serve shard now => serveHop server node shard now
  | .attempt c now => attempt server node c now
  | .leave c => ({ node with parked := update node.parked c none }, [])
  | .remapped map => ({ node with map := map }, [])
  | .replica replica inSync =>
    ({ node with replicas := node.replicas.setReplicaInSync replica inSync }, [])
  | .replicaGone replica => ({ node with replicas := node.replicas.replicaGone replica }, [])
  | .replicaRead inSync => ({ node with replicaInSync := inSync }, [])

def Node.run (events : List (Event ν)) : Node E κ ν :=
  events.foldl (fun node event => (node.step server event).1) node

theorem Node.run_concat (events : List (Event ν)) (event : Event ν) :
    node.run server (events ++ [event]) = ((node.run server events).step server event).1 :=
  List.foldl_concat ..

def Node.start (map : SlotMap ν) (stores : ℕ → ShardStore E) (conns : ℕ → ℕ × κ) : Node E κ ν where
  map := map
  stores := stores
  conns c := ⟨(conns c).1, (conns c).2, 0, false, [], false, [], false, false, false⟩

end Router

/-- A server whose data commands are `SET`, `RPUSH`, `FLUSHALL` and a `SORT` of nothing, which clears
the destination. -/
def smallServer (shards minReplicasToWrite : ℕ) : Server NullEviction Unit ℕ where
  self := 0
  shards := shards
  minReplicasToWrite := minReplicasToWrite
  endpoint _ := []
  timeouts _ := .ok none
  human _ := []
  keyed db now request store :=
    match request with
    | [name, key, value] =>
      if named ["RPUSH"] (asciiUpper name) then
        (.ok, (store.rmwMut db key now (pushOneStep value false)).2)
      else if named ["SET"] (asciiUpper name) then
        (.ok, (store.upsert db key (.bytes value) .clear now).2)
      else (.ok, store)
    | _ =>
      if named ["SORT"] (asciiUpper (command request)) then
        match sortStore none (request.drop 2) with
        | some dest => (.ok, (store.delete db dest now).2)
        | none => (.ok, store)
      else if named ["FLUSHALL"] (asciiUpper (command request)) then (.ok, store.flushAll)
      else (.ok, store)
  connection _ _ conn store := (.ok, conn, store)
  resetRest rest := rest
  queueValidate _ := none
  aclEnforce _ _ := none
  gate _ _ := none
  intercept _ _ := none

def words (parts : List String) : Request := parts.map utf8

/-- A map of two nodes, of which the first has every slot but that of the key `a`. -/
def mapWithout (owner : Option ℕ) : SlotMap ℕ where
  nodes := [0, 1]
  owner := update (fun _ => some 0) (keySlot (utf8 "a")) owner

/-- Two shards; all connections but the second are at home where the key `a` is. -/
def twoShards : Node NullEviction Unit ℕ :=
  let shard := ownerShard (utf8 "a") 2
  .start (mapWithout (some 0)) (fun _ => .withHooks 1 {}) fun c =>
    (if c = 1 then 1 - shard else shard, ())

end Serve

end IronCache
