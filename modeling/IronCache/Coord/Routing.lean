import IronCache.Coord.FanOut

/-!
# Routing

The routing of one request (`serve_routing.rs`, `serve_txn_block.rs`): a hop that is left to the
serve loop, or a program over the shards.
-/

namespace IronCache.Coord

open Protocol

/-- What the router leaves to others: the commands on one shard, the home dispatch, the combiners of
spanning set algebra, and the gates and commands that the serve layer takes before routing. -/
structure Engine (σ κ : Type) where
  databases : ℕ
  run : σ → ℕ → Request → Value × σ
  handleRequest : σ → ConnState κ → Request → Option (List KeyspaceDbLine) → Answered κ × σ
  nextU64 : σ → ℕ × σ
  spanningCombine : ShardId → ConnState κ → Request → Plan κ Value
  serveLayer : ShardId → ConnState κ → Request → Option (Plan κ (Answered κ))
  unknownCommand : Request → ErrorReply

variable {σ κ : Type}

def Engine.serve (engine : Engine σ κ) (state : σ) : Work κ → Answer κ × σ
  | .unit db request =>
    let (value, state) := engine.run state db request
    (.value value, state)
  | .home conn request nodeKeyspace =>
    let (answered, state) := engine.handleRequest state conn request nodeKeyspace
    (.handled answered, state)
  | .nextU64 =>
    let (number, state) := engine.nextU64 state
    (.drawn number, state)

/-- A command is put off to one shard, or answered by a plan. -/
inductive Outcome (κ : Type) where
  | deferred (target : ℕ)
  | answered (plan : Plan κ (Answered κ))

def replying (conn : ConnState κ) (plan : Plan κ Value) : Plan κ (Answered κ) := do
  let value ← plan
  pure ⟨(conn.proto, value), false, conn⟩

def refusing (conn : ConnState κ) (error : ErrorReply) : Plan κ (Answered κ) :=
  .done ⟨(conn.proto, .error error), false, conn⟩

def lowerByte (byte : UInt8) : UInt8 := if 65 ≤ byte && byte ≤ 90 then byte + 32 else byte

def infoReplyIncludesKeyspace (request : Request) : Bool :=
  match request[1]? with
  | none => true
  | some section_ => named ["default", "all", "everything", "keyspace"] (section_.map lowerByte)

/-- Runs the command on the home shard, with the connection. -/
def homeRequest (home : ShardId) (conn : ConnState κ) (request : Request)
    (nodeKeyspace : Option (List KeyspaceDbLine)) : Plan κ (Answered κ) :=
  .scatter [(home.index, .home conn request nodeKeyspace)] fun answers =>
    match answers with
    | [.handled answered] => .done answered
    | _ => refusing conn (.err shardUnavailableMsg)

/-- `INFO` counts the keys of the whole node first. -/
def homePath (engine : Engine σ κ) (home : ShardId) (conn : ConnState κ) (request : Request) :
    Plan κ (Answered κ) := do
  if 1 < home.total ∧ named ["INFO"] (asciiUpper (command request)) ∧ infoReplyIncludesKeyspace request then
    let lines ← gatherNodeKeyspace engine.databases home conn.db
    homeRequest home conn request (some lines)
  else homeRequest home conn request none

def isHome (home : ShardId) (key : Bytes) : Bool := ownerShard key home.total = home.index

/-- Whether the home shard owns every key of the command. -/
def allKeysHomeOwned (cmdUpper : Bytes) (request : Request) (home : ShardId) : Bool :=
  match classify cmdUpper with
  | .keyedSingle => request[1]?.all (isHome home)
  | .keyedMulti =>
    match commandKeys cmdUpper request with
    | .none => true
    | .one key => isHome home key
    | .many keys => keys.all (isHome home)
  | .alwaysHome | .wholeKeyspace => true

def txnCrossShardCommand : ErrorReply :=
  .err (utf8 "a queued command references a key on another shard; " ++
    utf8 "cross-shard transactions are not supported yet")

def txnWholeKeyspaceUnsupported : ErrorReply :=
  .err (utf8 "a whole-keyspace command in a transaction is not supported across shards yet")

def watchCrossShard : ErrorReply :=
  .err (utf8 "WATCH of a key on another shard is not supported yet")

/-- Inside a transaction nothing leaves the home shard. -/
def routeInMulti (home : ShardId) (conn : ConnState κ) (cmdUpper : Bytes) (request : Request) :
    Plan κ (Answered κ) :=
  if !allKeysHomeOwned cmdUpper request home then
    refusing { conn with dirtyExec := true } txnCrossShardCommand
  else if classify cmdUpper = .wholeKeyspace ∧ 1 < home.total then
    refusing { conn with dirtyExec := true } txnWholeKeyspaceUnsupported
  else homeRequest home conn request none

def internalVerbs : List String :=
  ["__ICSTORESET", "__ICSTOREZSET", "__ICSTOREHLL", "__ICPUBLISH", "__ICSPUBLISH", "__ICPUBSUB",
   "__ICEXISTS", "__ICSAVE", "__ICCOUNTKEYSINSLOT", "__ICGETKEYSINSLOT"]

def fanOutMultikeyNames : List String := ["MGET", "MSET", "DEL", "EXISTS", "UNLINK", "TOUCH"]

def fanOutSpanningCombineNames : List String :=
  ["ZUNION", "ZINTER", "ZDIFF", "ZINTERCARD", "ZUNIONSTORE", "ZINTERSTORE", "ZDIFFSTORE",
   "ZRANGESTORE", "SINTER", "SUNION", "SDIFF", "SINTERCARD", "SINTERSTORE", "SUNIONSTORE",
   "SDIFFSTORE", "BITOP", "PFCOUNT", "PFMERGE"]

def fanOutSpanningMoveNames : List String := ["SMOVE", "LMOVE", "RPOPLPUSH"]

def spanningMoveRejectNames : List String :=
  ["RENAME", "RENAMENX", "COPY", "LMPOP", "ZMPOP", "SORT", "MSETEX"]

def rejectSpanningMove (cmdUpper : Bytes) : ErrorReply :=
  .err (cmdUpper ++ utf8 " across internal shards is not supported yet; use a hash tag " ++
    utf8 "so the keys co-locate on one shard (e.g. \x7btag\x7dkey1 \x7btag\x7dkey2)")

/-- A command with several keys that no single shard owns. -/
def spans (cmdUpper : Bytes) (request : Request) (home : ShardId) : Bool :=
  match classify cmdUpper, commandKeys cmdUpper request with
  | .keyedMulti, .many keys => ownerShardSet (.many keys) home.total = none
  | _, _ => false

/-- The one other shard that owns the keys of a command. -/
def target (cmdUpper : Bytes) (request : Request) (home : ShardId) : Option ℕ :=
  let owner : Option ℕ :=
    match classify cmdUpper with
    | .keyedSingle => request[1]?.map (ownerShard · home.total)
    | .keyedMulti => ownerShardSet (commandKeys cmdUpper request) home.total
    | .alwaysHome | .wholeKeyspace => none
  owner.filter (· ≠ home.index)

/-- The commands over all keys of the node. -/
def wholeKeyspace (cmdUpper : Bytes) (request : Request) (home : ShardId) (db : ℕ) :
    Plan κ Value := do
  if named ["SCAN"] cmdUpper then scanCrossShard request home db false
  else
    let pick ← if named ["RANDOMKEY"] cmdUpper then randomkeyPick home request else pure 0
    fanOutAndMerge cmdUpper request home db pick

/-- The program of a command that fans out, if it does. -/
def fanOut (engine : Engine σ κ) (home : ShardId) (conn : ConnState κ) (cmdUpper : Bytes)
    (request : Request) : Option (Plan κ (Answered κ)) :=
  if classify cmdUpper = .wholeKeyspace then
    some (replying conn (wholeKeyspace cmdUpper request home conn.db))
  else if !spans cmdUpper request home then none
  else if named fanOutMultikeyNames cmdUpper then
    some (replying conn (fanOutMultikey cmdUpper request home conn.db))
  else if named fanOutSpanningCombineNames cmdUpper then
    some (replying conn (engine.spanningCombine home conn request))
  else if named fanOutSpanningMoveNames cmdUpper then
    some (replying conn (fanOutSpanningMove cmdUpper request home conn.db))
  else if named ["MSETNX"] cmdUpper then
    some (replying conn (fanOutSpanningMsetnx request home conn.db))
  else if named spanningMoveRejectNames cmdUpper then
    some (refusing conn (rejectSpanningMove cmdUpper))
  else none

def routeAndDispatch (engine : Engine σ κ) (home : ShardId) (conn : ConnState κ)
    (request : Request) : Outcome κ :=
  let cmdUpper := asciiUpper (command request)
  match engine.serveLayer home conn request with
  | some plan => .answered plan
  | none =>
    if named internalVerbs cmdUpper then
      let conn := if conn.inMulti then { conn with dirtyExec := true } else conn
      .answered (refusing conn (engine.unknownCommand request))
    else if conn.inMulti then .answered (routeInMulti home conn cmdUpper request)
    else if named ["WATCH"] cmdUpper && (request.drop 1).any (!isHome home ·) then
      .answered (refusing conn watchCrossShard)
    else
      match fanOut engine home conn cmdUpper request with
      | some plan => .answered plan
      | none =>
        match target cmdUpper request home with
        | some shard => .deferred shard
        | none => .answered (homePath engine home conn request)

variable {home : ShardId} {cmdUpper : Bytes} {request : Request} {conn : ConnState κ} {shard : ℕ}

theorem routeAndDispatch_home (free : engine.serveLayer home conn request = none)
    (alone : conn.inMulti = false)
    (plain : named ("WATCH" :: "INFO" :: internalVerbs) (called request) = false)
    (gathered : fanOut engine home conn (called request) request = none)
    (own : target (called request) request home = none) :
    routeAndDispatch engine home conn request = .answered (homeRequest home conn request none) := by
  have split : ∀ name rest, named (name :: rest) (called request) = false →
      named [name] (called request) = false ∧ named rest (called request) = false := by
    intro name rest none
    simpa [named] using none
  obtain ⟨watch, plain⟩ := split _ _ plain
  obtain ⟨info, external⟩ := split _ _ plain
  unfold routeAndDispatch homePath
  simp only [free, external, alone, watch, gathered, own, info, Bool.false_and, Bool.false_eq_true,
    if_false, false_and, and_false]

theorem homeRequest_asks (asks : (homeRequest home conn request nodeKeyspace).Asks shard) :
    shard = home.index := by
  cases asks with
  | now listed => exact congrArg Prod.fst (List.mem_singleton.1 listed)
  | later answers asks =>
    dsimp only at asks
    split at asks
    · cases asks
    · cases asks

def Outcome.hop : Outcome κ → Option ℕ
  | .deferred shard => some shard
  | .answered _ => none

theorem Outcome.eq_deferred {outcome : Outcome κ} (hops : outcome.hop = some shard) :
    outcome = .deferred shard := by
  cases outcome with
  | deferred other => exact congrArg _ (Option.some.inj hops)
  | answered plan => cases hops

end IronCache.Coord
