import IronCache.Coord.Commands
import IronCache.Lib.Scatter

/-!
# Fan-outs

The commands that ask several shards (`coordinator.rs`, `whole_keyspace.rs`, `multikey.rs`,
`spanning_move.rs`), as programs over the shards.
-/

namespace IronCache

namespace Protocol

def ErrorReply.err (message : Bytes) : ErrorReply where
  code := .err
  message := message

def ErrorReply.wrongArity (command : String) : ErrorReply :=
  .err (utf8 "wrong number of arguments for '" ++ utf8 command ++ utf8 "' command")

def ErrorReply.wrongType : ErrorReply where
  code := .wrongType
  message := utf8 "Operation against a key holding the wrong kind of value"

def ErrorReply.syntaxError : ErrorReply := .err (utf8 "syntax error")

def ErrorReply.invalidCursor : ErrorReply := .err (utf8 "invalid cursor")

def Value.ok : Value := .simpleString (utf8 "OK")

def Value.errorReply : Value → Option ErrorReply
  | .error reply => some reply
  | _ => none

end Protocol

namespace Coord

open Protocol

structure ShardId where
  index : ℕ
  total : ℕ
deriving DecidableEq

/-- What the serve loop reads of a connection; the rest belongs to the handlers. -/
structure ConnState (κ : Type) where
  db : ℕ
  proto : ProtoVersion
  inMulti : Bool
  queued : List Request
  dirtyExec : Bool
  rest : κ

structure KeyspaceDbLine where
  db : ℕ
  keys : ℕ
deriving DecidableEq

abbrev Reply := ProtoVersion × Value

/-- The reply to a command, whether the connection closes and what becomes of it. -/
structure Answered (κ : Type) where
  reply : Reply
  close : Bool
  conn : ConnState κ

/-- Work for one shard: a unit of a routed command, the home dispatch of a request, or a draw. -/
inductive Work (κ : Type) where
  | unit (db : ℕ) (request : Request)
  | home (conn : ConnState κ) (request : Request) (nodeKeyspace : Option (List KeyspaceDbLine))
  | nextU64

/-- What a shard answers to the work it is given. -/
inductive Answer (κ : Type) where
  | value (value : Value)
  | handled (answered : Answered κ)
  | drawn (number : ℕ)

/-- A command over shards: what it asks of them, and what it makes of the answers. -/
abbrev Plan (κ R : Type) := Scatter.Program ℕ (Work κ) (Answer κ) R

variable {κ : Type}

def Answer.value? : Answer κ → Option Value
  | .value reply => some reply
  | _ => none

def shardUnavailableMsg : Bytes := utf8 "cross-shard target unavailable"

def isShardUnavailable (reply : ErrorReply) : Bool := reply.message = shardUnavailableMsg

/-- Sends every shard its request; the answers stand in the order of the requests. -/
def units (db : ℕ) (subreqs : List (ℕ × Request)) : Plan κ (List (ℕ × Value)) :=
  .scatter (subreqs.map fun subreq => (subreq.1, .unit db subreq.2)) fun answers =>
    .done ((subreqs.map (·.1)).zip (answers.filterMap Answer.value?))

/-- The same request to every shard, the home one included. -/
def fanOutAll (home : ShardId) (db : ℕ) (request : Request) : Plan κ (List (ℕ × Value)) :=
  units db ((List.range home.total).map fun shard => (shard, request))

/-- The reply of the home shard stands first. -/
def fanOutSplit (home : ShardId) (db : ℕ) (subreqs : List (ℕ × Request)) : Plan κ (List (ℕ × Value)) :=
  let homeSubreq := (subreqs.filter (·.1 = home.index)).getLast?
  units db (homeSubreq.toList ++ subreqs.filter (·.1 ≠ home.index))

/-- One request to one shard. -/
def unitOn (shard db : ℕ) (request : Request) : Plan κ Value := do
  let replies ← units db [(shard, request)]
  pure ((replies.map (·.2)).headD (.error (.err shardUnavailableMsg)))

/-- A request to the shard that owns the key. -/
def routeToOwner (home : ShardId) (db : ℕ) (key : Bytes) (request : Request) : Plan κ Value :=
  unitOn (ownerShard key home.total) db request

def saturatingAdd (left right : Int64) : Int64 :=
  .ofInt (max (-2 ^ 63) (min (2 ^ 63 - 1) (left.toInt + right.toInt)))

section

variable (replies : List (ℕ × Value))

/-- A reply that is no integer counts for nothing. -/
def sumOf : Int64 :=
  replies.foldl (fun total reply =>
    match reply.2 with
    | .integer number => saturatingAdd total number
    | _ => total) 0

/-- Only the first error is looked at, so one behind an unavailable shard goes unseen. -/
def sumIntegers : Value :=
  match replies.findSome? fun reply => reply.2.errorReply with
  | some reply => if isShardUnavailable reply then .integer (sumOf replies) else .error reply
  | none => .integer (sumOf replies)

def mergeDbsize : Value := sumIntegers replies

/-- What the replies hold, up to the first error that is no unavailable shard. -/
def collect (part : Value → List Value) : List (ℕ × Value) → Except ErrorReply (List Value)
  | [] => .ok []
  | (_, value) :: rest =>
    match value.errorReply with
    | some reply => if isShardUnavailable reply then collect part rest else .error reply
    | none => (part value ++ ·) <$> collect part rest

/-- The keys of all shards, in the order of the shards. -/
def mergeKeys : Value :=
  let keys : Value → List Value
    | .array (some keys) => keys
    | _ => []
  match collect keys replies with
  | .ok keys => .array (some keys)
  | .error reply => .error reply

/-- The error of the first shard that has one. -/
def firstErrorOr (success : Value) (replies : List (ℕ × Value)) : Value :=
  match replies.findSome? fun reply => reply.2.errorReply with
  | some reply => .error reply
  | none => success

def mergeFlush : Value := firstErrorOr .ok replies

end

/-- One key of those that the shards drew. -/
def mergeRandomkey (pick : ℕ) (replies : List (ℕ × Value)) : Value :=
  let candidates : Value → List Value
    | .bulkString (some key) => [.bulkString (some key)]
    | _ => []
  match collect candidates replies with
  | .ok candidates => candidates.getD (pick % candidates.length) .null
  | .error reply => .error reply

/-- The keys of every database, summed over the shards. -/
def mergeKeyspaceCounts (databases : ℕ) (replies : List (ℕ × Value)) : List ℕ :=
  (List.range databases).map fun db =>
    replies.foldl (fun total reply =>
      match reply.2 with
      | .array (some items) =>
        match items[db]? with
        | some (.integer number) => min (total + number.toInt.toNat) (2 ^ 64 - 1)
        | _ => total
      | _ => total) 0

/-- A database without keys has no line. -/
def gatherNodeKeyspace (databases : ℕ) (home : ShardId) (db : ℕ) : Plan κ (List KeyspaceDbLine) := do
  let replies ← fanOutAll home db [utf8 "__ICINFOKEYSPACE", Decimal.print databases]
  let counts := (mergeKeyspaceCounts databases replies).mapIdx KeyspaceDbLine.mk
  pure (counts.filter fun line => 0 < line.keys)

/-- The shard pick of `RANDOMKEY`, from the generator of the home shard. -/
def randomkeyPick (home : ShardId) (request : Request) : Plan κ ℕ :=
  if request.length = 1 then
    .scatter [(home.index, .nextU64)] fun answers =>
      match answers with
      | [.drawn number] => .done number
      | _ => .done 0
  else .done 0

def fanOutAndMerge (cmdUpper : Bytes) (request : Request) (home : ShardId) (db pick : ℕ) :
    Plan κ Value := do
  let replies ← fanOutAll home db request
  pure <| if named ["DBSIZE"] cmdUpper then mergeDbsize replies
    else if named ["KEYS"] cmdUpper then mergeKeys replies
    else if named ["FLUSHDB", "FLUSHALL"] cmdUpper then mergeFlush replies
    else if named ["RANDOMKEY"] cmdUpper then mergeRandomkey pick replies
    else .error (.err (utf8 "non-fan-out whole-keyspace command"))

def shardBits : UInt64 := 8

/-- The shard takes the top bits of the cursor, whose low ones are lost. -/
def compose (shard : ℕ) (inner : UInt64) (shards : ℕ) : UInt64 :=
  if shards ≤ 1 then inner else .ofNat shard <<< (64 - shardBits) ||| inner >>> shardBits

/-- The shard of a cursor, and the cursor inside it. -/
def decompose (cursor : UInt64) (shards : ℕ) : ℕ × UInt64 :=
  if shards ≤ 1 then (0, cursor)
  else ((cursor >>> (64 - shardBits)).toNat, cursor <<< shardBits)

def fromToken (token : Bytes) : Option UInt64 := (parseCount token).map UInt64.ofNat

def toToken (cursor : UInt64) : Bytes := Decimal.print cursor.toNat

/-- The cursor of a shard, with the shard it belongs to. -/
def rewriteScanReply (reply : Value) (shard shards : ℕ) (homeOnly : Bool) : Value :=
  match reply with
  | .array (some [cursor, keys]) =>
    let next : UInt64 :=
      match cursor with
      | .bulkString (some token) => (fromToken token).getD 0
      | _ => 0
    let composite :=
      if next = 0 then
        if homeOnly || shards ≤ shard + 1 then 0 else compose (shard + 1) 0 shards
      else compose shard next shards
    .array (some [.bulkString (some (toToken composite)), keys])
  | reply => reply

variable (request : Request)

section

variable (home : ShardId)

/-- A call of `SCAN` goes to the one shard its cursor names. Where each shard is a node of its own, the
walk keeps to the shard of the connection. -/
def scanCrossShard (db : ℕ) (homeOnly : Bool) : Plan κ Value :=
  match request[1]? with
  | none => .done (.error (.wrongArity "scan"))
  | some token =>
    match fromToken token with
    | none => .done (.error .invalidCursor)
    | some cursor =>
      let (decoded, inner) := decompose cursor home.total
      let shard := if homeOnly then home.index else decoded
      if home.total ≤ shard then .done (.error .invalidCursor)
      else do
        let reply ← unitOn shard db (request.set 1 (toToken inner))
        pure (rewriteScanReply reply shard home.total homeOnly)

/-- The sub-request of each shard, and the positions its keys had. -/
def groupByOwner (verb : Bytes) (keys : List Bytes) (shards : ℕ) : List (ℕ × Request) × List (List ℕ) :=
  let placed := keys.mapIdx fun pos key => (ownerShard key shards, pos, key)
  let shardOrder := (placed.map (·.1)).eraseDups
  let owned := fun shard => (placed.filter (·.1 = shard)).map (·.2)
  (shardOrder.map fun shard => (shard, verb :: (owned shard).map (·.2)),
    shardOrder.map fun shard => (owned shard).map (·.1))

/-- A key without a value is dropped. -/
def pairUp : List Bytes → List (Bytes × Bytes)
  | key :: value :: rest => (key, value) :: pairUp rest
  | _ => []

/-- One `MSET` for every shard that owns a key, in the order of their first keys. -/
def groupPairsByOwner (pairs : List Bytes) (shards : ℕ) : List (ℕ × Request) :=
  let placed := (pairUp pairs).map fun pair => (ownerShard pair.1 shards, pair)
  (placed.map (·.1)).eraseDups.map fun shard =>
    (shard, utf8 "MSET" :: (placed.filter (·.1 = shard)).flatMap fun owned => [owned.2.1, owned.2.2])

/-- The values at the places their keys had; a missing shard leaves nulls. -/
def reassembleMget (numKeys : ℕ) (subreqs : List (ℕ × Request)) (positions : List (List ℕ))
    (replies : List (ℕ × Value)) : Value :=
  .array <| some <| replies.foldl (fun out reply =>
    match subreqs.findIdx? (·.1 = reply.1), reply.2 with
    | some index, .array (some values) =>
      ((positions.getD index []).zip values).foldl (fun out place => out.set place.1 place.2) out
    | _, _ => out) (List.replicate numKeys .null)

/-- Splits a command by the shards that own its keys. -/
def fanOutMultikey (cmdUpper : Bytes) (request : Request) (home : ShardId) (db : ℕ) :
    Plan κ Value :=
  let args := request.drop 1
  if named ["MGET"] cmdUpper then do
    let (subreqs, positions) := groupByOwner (utf8 "MGET") args home.total
    let replies ← fanOutSplit home db subreqs
    pure (reassembleMget args.length subreqs positions replies)
  else if named ["MSET"] cmdUpper then do
    let replies ← fanOutSplit home db (groupPairsByOwner args home.total)
    pure (firstErrorOr .ok replies)
  else if named ["DEL", "EXISTS", "UNLINK", "TOUCH"] cmdUpper then do
    let replies ← fanOutSplit home db (groupByOwner cmdUpper args home.total).1
    pure (sumIntegers replies)
  else .done (.error (.err (utf8 "non-fan-out multi-key command")))

/-- The error of a key of another type; an absent key is of any. -/
def wrongtypeIfNot (reply : Value) (expected : Bytes) : Option Value :=
  match reply with
  | .simpleString text =>
    if text = utf8 "none" ∨ text = expected then none else some (.error .wrongType)
  | .error reply => some (.error reply)
  | _ => none

/-- Both ends are checked before the member is added there and removed here. -/
def smoveSpanning (db : ℕ) : Plan κ Value :=
  match request with
  | [_, src, dst, member] => do
      let probe ← routeToOwner home db src [utf8 "SISMEMBER", src, member]
      match probe with
      | .integer present =>
        if present = 1 then do
          let dstType ← routeToOwner home db dst [utf8 "TYPE", dst]
          match wrongtypeIfNot dstType (utf8 "set") with
          | some reply => pure reply
          | none =>
            let add ← routeToOwner home db dst [utf8 "SADD", dst, member]
            match add.errorReply with
            | some reply => pure (.error reply)
            | none =>
              let rem ← routeToOwner home db src [utf8 "SREM", src, member]
              match rem.errorReply with
              | some reply =>
                let _ ← routeToOwner home db dst [utf8 "SREM", dst, member]
                pure (.error reply)
              | none => pure (.integer 1)
        else pure probe
      | other => pure other
  | _ => .done (.error (.wrongArity "smove"))

/-- Puts the element back on the side it was taken from. -/
def restoreToSrc (db : ℕ) (src elem : Bytes) (fromLeft : Bool) : Plan κ Value :=
  routeToOwner home db src [if fromLeft then utf8 "LPUSH" else utf8 "RPUSH", src, elem]

/-- The element is popped first, and pushed back where the destination refuses it. -/
def moveElement (db : ℕ) (src dst : Bytes) (fromLeft toLeft : Bool) :
    Plan κ Value := do
  let popped ← routeToOwner home db src [if fromLeft then utf8 "LPOP" else utf8 "RPOP", src]
  match popped with
  | .bulkString (some elem) =>
    let dstType ← routeToOwner home db dst [utf8 "TYPE", dst]
    match wrongtypeIfNot dstType (utf8 "list") with
    | some _ =>
      let _ ← restoreToSrc home db src elem fromLeft
      pure (.error .wrongType)
    | none =>
      let push ← routeToOwner home db dst [if toLeft then utf8 "LPUSH" else utf8 "RPUSH", dst, elem]
      match push.errorReply with
      | some reply =>
        let _ ← restoreToSrc home db src elem fromLeft
        pure (.error reply)
      | none => pure (.bulkString (some elem))
  | .bulkString none => pure .null
  | other => pure other

/-- Whether the argument names the left side. -/
def side (arg : Bytes) : Option Bool :=
  if asciiUpper arg = utf8 "LEFT" then some true
  else if asciiUpper arg = utf8 "RIGHT" then some false
  else none

def lmoveSpanning (db : ℕ) : Plan κ Value :=
  match request with
  | [_, src, dst, source, dest] =>
    match side source, side dest with
    | some fromLeft, some toLeft => moveElement home db src dst fromLeft toLeft
    | _, _ => .done (.error .syntaxError)
  | _ => .done (.error (.wrongArity "lmove"))

def rpoplpushSpanning (db : ℕ) : Plan κ Value :=
  match request with
  | [_, src, dst] => moveElement home db src dst false true
  | _ => .done (.error (.wrongArity "rpoplpush"))

end

def fanOutSpanningMove (cmdUpper : Bytes) (request : Request) (home : ShardId) (db : ℕ) :
    Plan κ Value :=
  if named ["SMOVE"] cmdUpper then smoveSpanning request home db
  else if named ["LMOVE"] cmdUpper then lmoveSpanning request home db
  else if named ["RPOPLPUSH"] cmdUpper then rpoplpushSpanning request home db
  else .done (.error (.err (utf8 "non-spanning-move command")))

/-- The reply for the first key that does not answer zero, if any. -/
def scanExisting (home : ShardId) (db : ℕ) : List Bytes → Plan κ (Option Value)
  | [] => .done none
  | key :: rest => do
      let existed ← routeToOwner home db key [utf8 "EXISTS", key]
      match existed with
      | .integer count => if count = 0 then scanExisting home db rest else pure (some (.integer 0))
      | other => pure (some other)

/-- Nothing is set once a key is found. -/
def fanOutSpanningMsetnx (home : ShardId) (db : ℕ) : Plan κ Value :=
  if request.length < 3 ∨ (request.length - 1) % 2 ≠ 0 then .done (.error (.wrongArity "msetnx"))
  else do
    let pairs := request.drop 1
    match ← scanExisting home db ((pairUp pairs).map (·.1)) with
    | some reply => pure reply
    | none =>
      let replies ← fanOutSplit home db (groupPairsByOwner pairs home.total)
      pure (firstErrorOr (.integer 1) replies)

end Coord

end IronCache
