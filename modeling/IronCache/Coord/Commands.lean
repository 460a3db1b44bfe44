import IronCache.Protocol.Decode
import IronCache.Protocol.Slot

/-!
# Commands

What the router knows of a command (`command_spec.rs`, `route.rs`): its class, its keys, and whether
it writes.
-/

namespace IronCache.Coord

open Protocol

inductive CommandClass where
  | keyedSingle
  | keyedMulti
  | wholeKeyspace
  | alwaysHome
deriving DecidableEq

inductive KeySpecKind where
  | arg1
  | allFromArg1
  | msetStrided
  | twoKeysArg1Arg2
  | bitopDestArg2SourcesFrom3
  | numkeysAtArg1
  | msetexNumkeysStrided
  | zstoreDestNumkeysAtArg2
  | objectArg2
  | sortKeys
deriving DecidableEq

def keyedSingleNames : List String :=
  ["GET", "SET", "SETNX", "GETSET", "STRLEN", "INCR", "DECR", "INCRBY", "DECRBY", "INCRBYFLOAT",
   "APPEND", "GETRANGE", "SUBSTR", "SETRANGE", "GETDEL", "DELIFEQ", "TYPE", "DUMP", "RESTORE",
   "EXPIRE", "PEXPIRE", "EXPIREAT", "PEXPIREAT", "TTL", "PTTL", "EXPIRETIME", "PEXPIRETIME",
   "PERSIST", "GETEX", "SETEX", "PSETEX", "LPUSH", "RPUSH", "LPUSHX", "RPUSHX", "LPOP", "RPOP",
   "LLEN", "LRANGE", "LINDEX", "LSET", "LINSERT", "LREM", "LTRIM", "LPOS", "HSET", "HMSET",
   "HSETNX", "HGET", "HMGET", "HDEL", "HGETALL", "HKEYS", "HVALS", "HLEN", "HEXISTS", "HSTRLEN",
   "HINCRBY", "HINCRBYFLOAT", "HEXPIRE", "HPEXPIRE", "HEXPIREAT", "HPEXPIREAT", "HTTL", "HPTTL",
   "HEXPIRETIME", "HPEXPIRETIME", "HPERSIST", "HGETDEL", "HGETEX", "HSETEX", "HRANDFIELD",
   "HSCAN", "SADD", "SREM", "SMEMBERS", "SISMEMBER", "SMISMEMBER", "SCARD", "SPOP",
   "SRANDMEMBER", "SSCAN", "ZADD", "ZINCRBY", "ZREM", "ZSCORE", "ZMSCORE", "ZCARD", "ZRANK",
   "ZREVRANK", "ZCOUNT", "ZLEXCOUNT", "ZRANGE", "ZREVRANGE", "ZRANGEBYSCORE",
   "ZREVRANGEBYSCORE", "ZRANGEBYLEX", "ZREVRANGEBYLEX", "ZREMRANGEBYRANK", "ZREMRANGEBYSCORE",
   "ZREMRANGEBYLEX", "ZPOPMIN", "ZPOPMAX", "ZRANDMEMBER", "ZSCAN", "SETBIT", "GETBIT",
   "BITCOUNT", "BITPOS", "BITFIELD", "BITFIELD_RO", "PFADD", "SORT_RO", "__ICSTORESET",
   "__ICSTOREZSET", "__ICSTOREHLL"]

/-- The commands with several keys, by where the keys stand. -/
def keyedMultiNames : List (KeySpecKind × List String) :=
  [(.allFromArg1, ["MGET", "DEL", "EXISTS", "TOUCH", "UNLINK", "SINTER", "SUNION", "SDIFF",
    "SINTERSTORE", "SUNIONSTORE", "SDIFFSTORE", "PFCOUNT", "PFMERGE"]),
   (.msetStrided, ["MSET", "MSETNX"]),
   (.msetexNumkeysStrided, ["MSETEX"]),
   (.twoKeysArg1Arg2, ["RENAME", "RENAMENX", "COPY", "LMOVE", "RPOPLPUSH", "SMOVE", "ZRANGESTORE"]),
   (.arg1, ["MOVE"]),
   (.numkeysAtArg1, ["LMPOP", "SINTERCARD", "ZUNION", "ZINTER", "ZDIFF", "ZINTERCARD", "ZMPOP"]),
   (.zstoreDestNumkeysAtArg2, ["ZUNIONSTORE", "ZINTERSTORE", "ZDIFFSTORE"]),
   (.bitopDestArg2SourcesFrom3, ["BITOP"]),
   (.objectArg2, ["PFDEBUG", "OBJECT"]),
   (.sortKeys, ["SORT"])]

def wholeKeyspaceNames : List String :=
  ["KEYS", "SCAN", "DBSIZE", "RANDOMKEY", "FLUSHDB", "FLUSHALL"]

/-- The commands that do not write; one that is not known counts as a write. -/
def readNames : List String :=
  ["PING", "ECHO", "LOLWUT", "HELLO", "AUTH", "SELECT", "QUIT", "RESET", "CLIENT", "COMMAND",
   "INFO", "CONFIG", "SLOWLOG", "HOTKEYS", "MEMORY", "LATENCY", "DEBUG", "CLUSTER", "SAVE",
   "BGSAVE", "LASTSAVE", "SHUTDOWN", "MULTI", "EXEC", "DISCARD", "WATCH", "UNWATCH", "READONLY",
   "READWRITE", "ASKING", "GET", "STRLEN", "GETRANGE", "SUBSTR", "MGET", "EXISTS", "TYPE",
   "DUMP", "KEYS", "SCAN", "DBSIZE", "RANDOMKEY", "TOUCH", "TTL", "PTTL", "EXPIRETIME",
   "PEXPIRETIME", "LLEN", "LRANGE", "LINDEX", "LPOS", "HGET", "HMGET", "HGETALL", "HKEYS",
   "HVALS", "HLEN", "HEXISTS", "HSTRLEN", "HTTL", "HPTTL", "HEXPIRETIME", "HPEXPIRETIME",
   "HRANDFIELD", "HSCAN", "SMEMBERS", "SISMEMBER", "SMISMEMBER", "SCARD", "SRANDMEMBER",
   "SINTER", "SUNION", "SDIFF", "SINTERCARD", "SSCAN", "ZSCORE", "ZMSCORE", "ZCARD", "ZRANK",
   "ZREVRANK", "ZCOUNT", "ZLEXCOUNT", "ZRANGE", "ZREVRANGE", "ZRANGEBYSCORE",
   "ZREVRANGEBYSCORE", "ZRANGEBYLEX", "ZREVRANGEBYLEX", "ZRANDMEMBER", "ZSCAN", "ZUNION",
   "ZINTER", "ZDIFF", "ZINTERCARD", "WAIT", "GETBIT", "BITCOUNT", "BITPOS", "BITFIELD_RO",
   "PFCOUNT", "SORT_RO", "OBJECT", "SUBSCRIBE", "UNSUBSCRIBE", "PSUBSCRIBE", "PUNSUBSCRIBE",
   "PUBSUB", "SSUBSCRIBE", "SUNSUBSCRIBE", "__ICPUBSUB"]

def named (names : List String) (cmdUpper : Bytes) : Bool := names.any fun name => utf8 name == cmdUpper

private theorem utf8_inj : utf8 text = utf8 other ↔ text = other := by
  have bytes (text : String) : (utf8 text).toByteArray = text.toByteArray :=
    String.utf8Encode_toList
  refine ⟨fun same => ?_, congrArg utf8⟩
  rw [← String.toByteArray_inj, ← bytes text, ← bytes other, same]

variable {names others : List String} {cmdUpper : Bytes}

theorem named_iff : named names cmdUpper = true ↔ ∃ name ∈ names, utf8 name = cmdUpper := by
  simp only [named, List.any_eq_true, beq_iff_eq]

theorem named_utf8 (name : String) : named names (utf8 name) = names.contains name := by
  rw [Bool.eq_iff_iff, named_iff, List.contains_iff_mem]
  simp only [utf8_inj, exists_eq_right]

/-- A command named in one list is named in no list that shares nothing with it. -/
theorem named_eq_false (member : named names cmdUpper = true)
    (apart : ∀ name ∈ names, others.contains name = false) : named others cmdUpper = false := by
  obtain ⟨name, listed, token⟩ := named_iff.mp member
  rw [← token, named_utf8]
  exact apart name listed

def classify (cmdUpper : Bytes) : CommandClass :=
  if named keyedSingleNames cmdUpper then .keyedSingle
  else if keyedMultiNames.any fun group => named group.2 cmdUpper then .keyedMulti
  else if named wholeKeyspaceNames cmdUpper then .wholeKeyspace
  else .alwaysHome

def isWrite (cmdUpper : Bytes) : Bool := !named readNames cmdUpper

def upperByte (byte : UInt8) : UInt8 := if 97 ≤ byte && byte ≤ 122 then byte - 32 else byte

def asciiUpper (token : Bytes) : Bytes := token.map upperByte

/-- The token of a request, which the decoder never leaves empty. -/
def command (request : Request) : Bytes := request.headD []

/-- The token that a command is looked up by. -/
abbrev called (request : Request) : Bytes := asciiUpper (command request)

inductive KeySpec where
  | none
  | one (key : Bytes)
  | many (keys : List Bytes)
deriving DecidableEq

/-- No key, one, or several. -/
def KeySpec.ofList : List Bytes → KeySpec
  | [] => .none
  | [key] => .one key
  | keys => .many keys

def keysAt (request : Request) (indices : List ℕ) : KeySpec :=
  match indices.mapM fun index => request[index]? with
  | some keys => .ofList keys
  | Option.none => .none

def parseCount (arg : Bytes) : Option ℕ :=
  if arg.isEmpty then none else Decimal.parseFrom (2 ^ 64) 0 arg

/-- The first destination behind a `STORE` option. -/
def storeDest : Request → Option Bytes
  | [] => none
  | option :: rest => if asciiUpper option = utf8 "STORE" then rest.head? else storeDest rest

/-- The destination that the handler of `SORT` ends up with (`cmd_sort.rs`): the last `STORE` option
counts, and the arguments of the other options are none. -/
def sortStore (dest : Option Bytes) : List Bytes → Option Bytes
  | [] => dest
  | [option] => if named ["ASC", "DESC", "ALPHA"] (asciiUpper option) then dest else none
  | option :: argument :: rest =>
    if named ["ASC", "DESC", "ALPHA"] (asciiUpper option) then sortStore dest (argument :: rest)
    else if named ["BY", "GET"] (asciiUpper option) then sortStore dest rest
    else if named ["STORE"] (asciiUpper option) then sortStore (some argument) rest
    else if named ["LIMIT"] (asciiUpper option) then
      match rest with
      | [] => none
      | _ :: rest => sortStore dest rest
    else none

def extractKeys (kind : KeySpecKind) (request : Request) : KeySpec :=
  match kind with
  | .arg1 => .ofList (request.drop 1 |>.take 1)
  | .allFromArg1 => .ofList (request.drop 1)
  | .msetStrided =>
    if request.length < 3 ∨ (request.length - 1) % 2 ≠ 0 then .none
    else keysAt request ((List.range ((request.length - 1) / 2)).map fun pair => 1 + 2 * pair)
  | .twoKeysArg1Arg2 => keysAt request [1, 2]
  | .bitopDestArg2SourcesFrom3 =>
    if request.length < 4 then .none else .ofList (request.drop 2)
  | .numkeysAtArg1 =>
    match request[1]?.bind parseCount with
    | some numkeys =>
      if numkeys = 0 ∨ 2 + numkeys > request.length then .none
      else .ofList ((request.drop 2).take numkeys)
    | none => .none
  | .msetexNumkeysStrided =>
    match request[1]?.bind parseCount with
    | some numkeys =>
      if numkeys = 0 ∨ 2 + 2 * numkeys > request.length then .none
      else keysAt request ((List.range numkeys).map fun pair => 2 + 2 * pair)
    | none => .none
  | .zstoreDestNumkeysAtArg2 =>
    match request[2]?.bind parseCount with
    | some numkeys =>
      if numkeys = 0 ∨ 3 + numkeys > request.length then .none
      else keysAt request (1 :: (List.range numkeys).map (3 + ·))
    | none => .none
  | .objectArg2 => keysAt request [2]
  | .sortKeys =>
    match request[1]? with
    | some source =>
      match storeDest (request.drop 2) with
      | some dest => .many [source, dest]
      | none => .one source
    | none => .none

/-- The router asks for the keys of keyed commands only. -/
def commandKeys (cmdUpper : Bytes) (request : Request) : KeySpec :=
  match keyedMultiNames.find? fun group => named group.2 cmdUpper with
  | some (kind, _) => extractKeys kind request
  | none => if named keyedSingleNames cmdUpper then extractKeys .arg1 request else .none

def slotToShard (slot shards : ℕ) : ℕ := slot * max shards 1 / clusterSlots

def ownerShard (key : Bytes) (shards : ℕ) : ℕ := slotToShard (keySlot key) shards

theorem ownerShard_lt (key : Bytes) (some : 0 < shards) : ownerShard key shards < shards := by
  unfold ownerShard slotToShard
  rw [max_eq_left some, Nat.div_lt_iff_lt_mul (by decide), Nat.mul_comm shards]
  exact Nat.mul_lt_mul_of_pos_right keySlot_lt some

def ownerShardSet (spec : KeySpec) (shards : ℕ) : Option ℕ :=
  match spec with
  | .none | .many [] => none
  | .one key => some (ownerShard key shards)
  | .many (first :: rest) =>
    let owner := ownerShard first shards
    if (first :: rest).all fun key => ownerShard key shards == owner then some owner else none

end IronCache.Coord
