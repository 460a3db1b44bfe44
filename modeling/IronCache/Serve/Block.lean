import IronCache.Coord.FanOut
import IronCache.Store.Shard

/-!
# Blocking commands

The blocking pops and moves as far as they touch the store (`cmd_block.rs`, `cmd_list.rs`,
`cmd_zset.rs`).
-/

namespace IronCache.Serve

open Protocol (Request ErrorReply utf8)
open Store Coord

/-- What a blocking command does once a key can serve it. -/
inductive BlockOp where
  | pop (left : Bool)
  | move (fromLeft toLeft : Bool)
  | lmpop (left : Bool) (count : ℕ)
  | zpop (largest : Bool)
  | zmpop (largest : Bool) (count : ℕ)
  | wait (numreplicas : ℕ)
deriving DecidableEq

/-- A parsed blocking command; no timeout waits forever. -/
structure BlockSpec where
  timeoutMs : Option ℕ
  keys : List Bytes
  op : BlockOp
deriving DecidableEq

/-- The keys an attempt reads and writes: a move has a source and a destination. -/
def BlockSpec.worked (spec : BlockSpec) : List Bytes :=
  match spec.op with
  | .move _ _ => [spec.keys.getD 0 [], spec.keys.getD 1 []]
  | _ => spec.keys

def blockingNames : List String :=
  ["BLPOP", "BRPOP", "BLMOVE", "BRPOPLPUSH", "BLMPOP", "BZPOPMIN", "BZPOPMAX", "BZMPOP", "WAIT"]

def isBlockingCommand (cmdUpper : Bytes) : Bool := named blockingNames cmdUpper

def notAnInteger : ErrorReply := .err (utf8 "value is not an integer or out of range")

/-- A signed number without leading zeros that fits 64 bits. -/
def parseI64Strict (arg : Bytes) : Option ℤ :=
  let (negative, digits) := match arg with
    | 45 :: digits => (true, digits)
    | digits => (false, digits)
  match digits with
  | [] => none
  | [48] => some 0
  | 48 :: _ => none
  | digits =>
    match Decimal.parseFrom (2 ^ 64) 0 digits with
    | none => none
    | some number =>
      if negative then if number ≤ 2 ^ 63 then some (-number) else none
      else if number < 2 ^ 63 then some number else none

/-- The keys, the end and the count of an `MPOP`. -/
structure MpopArgs where
  keys : List Bytes
  direction : String
  count : ℕ

/-- `numkeys key [key ...] DIRECTION [COUNT count]`, behind the command. -/
def parseMpopArgs (request : Request) (command : String) (allowed : List String) :
    Except ErrorReply MpopArgs :=
  if request.length < 4 then .error (.wrongArity command)
  else
    match request[1]?.bind parseI64Strict with
    | none => .error notAnInteger
    | some numkeys =>
      if numkeys ≤ 0 then .error (.err (utf8 "numkeys should be greater than 0"))
      else
        match request.drop (2 + numkeys.toNat) with
        | [] => .error .syntaxError
        | token :: tail =>
          match allowed.find? fun name => utf8 name == asciiUpper token with
          | none => .error .syntaxError
          | some direction =>
            let keys := (request.drop 2).take numkeys.toNat
            match tail with
            | [] => .ok ⟨keys, direction, 1⟩
            | [keyword, count] =>
              if asciiUpper keyword = utf8 "COUNT" then
                match parseI64Strict count with
                | none => .error notAnInteger
                | some count =>
                  if count ≤ 0 then
                    .error (.err (utf8 "count should be greater than 0"))
                  else .ok ⟨keys, direction, count.toNat⟩
              else .error .syntaxError
            | _ => .error .syntaxError

/-- How a timeout in seconds is read: none blocks forever. -/
abbrev Timeouts := Bytes → Except ErrorReply (Option ℕ)

section

variable (timeouts : Timeouts)

/-- `key [key ...] timeout`. -/
def parseKeysTimeout (op : BlockOp) (command : String) (request : Request) :
    Except ErrorReply BlockSpec := do
  if request.length < 3 then throw (.wrongArity command)
  let timeoutMs ← timeouts (request.getLastD [])
  pure ⟨timeoutMs, (request.drop 1).dropLast, op⟩

def parseBpop (left : Bool) (command : String) (request : Request) :
    Except ErrorReply BlockSpec :=
  parseKeysTimeout timeouts (.pop left) command request

def parseBzpop (largest : Bool) (command : String) (request : Request) :
    Except ErrorReply BlockSpec :=
  parseKeysTimeout timeouts (.zpop largest) command request

def parseLr (arg : Bytes) : Except ErrorReply Bool :=
  match side arg with
  | some left => .ok left
  | none => .error .syntaxError

def parseBlmove (request : Request) : Except ErrorReply BlockSpec :=
  match request with
  | [_, src, dst, source, dest, timeout] => do
      let fromLeft ← parseLr source
      let toLeft ← parseLr dest
      let timeoutMs ← timeouts timeout
      pure ⟨timeoutMs, [src, dst], .move fromLeft toLeft⟩
  | _ => .error (.wrongArity "blmove")

def parseBrpoplpush (request : Request) : Except ErrorReply BlockSpec :=
  match request with
  | [_, src, dst, timeout] => do
      let timeoutMs ← timeouts timeout
      pure ⟨timeoutMs, [src, dst], .move false true⟩
  | _ => .error (.wrongArity "brpoplpush")

/-- `timeout numkeys key [key ...] DIRECTION [COUNT count]`. -/
def parseBmpop (command : String) (allowed : List String)
    (op : MpopArgs → BlockOp) (request : Request) : Except ErrorReply BlockSpec := do
  if request.length < 5 then throw (.wrongArity command)
  let timeoutMs ← timeouts (request.getD 1 [])
  let parsed ← parseMpopArgs (request.eraseIdx 1) command allowed
  pure ⟨timeoutMs, parsed.keys, op parsed⟩

def parseBlmpop : Request → Except ErrorReply BlockSpec :=
  parseBmpop timeouts "blmpop" ["LEFT", "RIGHT"] fun parsed =>
    .lmpop (parsed.direction == "LEFT") parsed.count

def parseBzmpop : Request → Except ErrorReply BlockSpec :=
  parseBmpop timeouts "bzmpop" ["MIN", "MAX"] fun parsed =>
    .zmpop (parsed.direction == "MAX") parsed.count

def parseBlock (cmdUpper : Bytes) (request : Request) :
    Except ErrorReply BlockSpec :=
  if named ["BLPOP"] cmdUpper then parseBpop timeouts true "blpop" request
  else if named ["BRPOP"] cmdUpper then parseBpop timeouts false "brpop" request
  else if named ["BLMOVE"] cmdUpper then parseBlmove timeouts request
  else if named ["BRPOPLPUSH"] cmdUpper then parseBrpoplpush timeouts request
  else if named ["BLMPOP"] cmdUpper then parseBlmpop timeouts request
  else if named ["BZPOPMIN"] cmdUpper then parseBzpop timeouts false "bzpopmin" request
  else if named ["BZPOPMAX"] cmdUpper then parseBzpop timeouts true "bzpopmax" request
  else if named ["BZMPOP"] cmdUpper then parseBzmpop timeouts request
  else .error (.err (utf8 "wrong number of arguments for '" ++ cmdUpper ++ utf8 "' command"))

end

def bulk (data : Bytes) : Protocol.Value := .bulkString (some data)

/-- A step that edits nothing. -/
def keeping (reply : R) : List CollEdit × RmwStep R := ([], ⟨.keep, .unchanged, reply⟩)

def asList (entry : OccupiedEntryMut) : Option ListVal :=
  match entry.value with
  | some (.list list) => some list
  | _ => none

def asZSet (entry : OccupiedEntryMut) : Option ZSetVal :=
  match entry.value with
  | some (.zset zset) => some zset
  | _ => none

def popEnd (left : Bool) (list : ListVal) : Option Bytes × ListVal :=
  if left then list.popFront else list.popBack

def popEdit (left : Bool) : CollEdit := .list (if left then .popFront else .popBack)

def pushEdit (left : Bool) (elem : Bytes) (thresholds : EncodingThresholds) : CollEdit :=
  .list (if left then .pushFront elem thresholds else .pushBack elem thresholds)

/-- What a pop does with the key: an emptied collection goes. -/
def finishPop (edits : List CollEdit) (len : ℕ) (reply : R) : List CollEdit × RmwStep R :=
  (edits, ⟨if len = 0 then .delete else .mutated, .unchanged, reply⟩)

/-- One element of a list, told with its key. -/
def bpopStep (key : Bytes) (left : Bool) : Option OccupiedEntryMut → List CollEdit × RmwStep Protocol.Value
  | none => keeping .null
  | some entry =>
    match asList entry with
    | none => keeping (.error .wrongType)
    | some list =>
      match popEnd left list with
      | (none, _) => keeping .null
      | (some elem, rest) =>
        finishPop [popEdit left] rest.len (.array (some [bulk key, bulk elem]))

/-- Some elements from one end, and the list that is left. -/
def popMany (left : Bool) : ℕ → ListVal → List Bytes × ListVal
  | 0, list => ([], list)
  | count + 1, list =>
    match popEnd left list with
    | (none, _) => ([], list)
    | (some elem, rest) =>
      let (elems, rest) := popMany left count rest
      (elem :: elems, rest)

/-- Pops up to the count; an emptied list is removed. -/
def lmpopStep (key : Bytes) (left : Bool) (count : ℕ) :
    Option OccupiedEntryMut → List CollEdit × RmwStep Protocol.Value
  | none => keeping .null
  | some entry =>
    match asList entry with
    | none => keeping (.error .wrongType)
    | some list =>
      let (elems, rest) := popMany left (min count list.len) list
      finishPop (List.replicate elems.length (popEdit left)) rest.len
        (.array (some [bulk key, .array (some (elems.map bulk))]))

def popExtremes (largest : Bool) (count : ℕ) (zset : ZSetVal) : List (Bytes × F64) × ZSetVal :=
  if largest then zset.popMax count else zset.popMin count

def popExtremesEdit (largest : Bool) (count : ℕ) : CollEdit :=
  .zset (if largest then .popMax count else .popMin count)

def bzpopStep (key : Bytes) (largest : Bool) :
    Option OccupiedEntryMut → List CollEdit × RmwStep Protocol.Value
  | none => keeping .null
  | some entry =>
    match asZSet entry with
    | none => keeping (.error .wrongType)
    | some zset =>
      match popExtremes largest 1 zset with
      | ((member, score) :: _, rest) =>
        finishPop [popExtremesEdit largest 1] rest.len (.array (some [bulk key, bulk member, .double score]))
      | ([], _) => keeping .null

def zmpopStep (human : F64 → Bytes) (key : Bytes) (largest : Bool) (count : ℕ) :
    Option OccupiedEntryMut → List CollEdit × RmwStep Protocol.Value
  | none => keeping .null
  | some entry =>
    match asZSet entry with
    | none => keeping (.error .wrongType)
    | some zset =>
      let (popped, rest) := popExtremes largest count zset
      finishPop [popExtremesEdit largest count] rest.len
        (.array (some [bulk key, .array (some (popped.map fun (member, score) =>
          .array (some [bulk member, bulk (human score)])))]))

/-- A list moved onto itself. -/
def rotateStep (fromLeft toLeft : Bool) : Option OccupiedEntryMut → List CollEdit × RmwStep Protocol.Value
  | none => keeping .null
  | some entry =>
    match asList entry with
    | none => keeping (.error .wrongType)
    | some list =>
      match (popEnd fromLeft list).1 with
      | none => keeping .null
      | some elem =>
        ([popEdit fromLeft, pushEdit toLeft elem entry.thresholds], ⟨.mutated, .unchanged, bulk elem⟩)

/-- The source of a move: its element, nothing, or a value of another type. -/
def popOneStep (fromLeft : Bool) :
    Option OccupiedEntryMut → List CollEdit × RmwStep (Except Unit (Option Bytes))
  | none => keeping (.ok none)
  | some entry =>
    match asList entry with
    | none => keeping (.error ())
    | some list =>
      match popEnd fromLeft list with
      | (none, _) => keeping (.ok none)
      | (some elem, rest) => finishPop [popEdit fromLeft] rest.len (.ok (some elem))

/-- A missing destination is made. -/
def pushOneStep (elem : Bytes) (toLeft : Bool) : Option OccupiedEntryMut → List CollEdit × RmwStep Unit
  | none => ([], ⟨.insert (.list [elem]), .clear, ()⟩)
  | some entry =>
    ((asList entry).toList.map fun _ => pushEdit toLeft elem entry.thresholds, ⟨.mutated, .unchanged, ()⟩)

section Attempt

variable {E : Type} [EvictionHook E]

/-- An entry that has expired has no type. -/
def typeOf (db : ℕ) (key : Bytes) (now : ℕ) (store : ShardStore E) : Option DataType × ShardStore E :=
  let idx := store.dbIndex db
  let (live, store) := store.expireIfDue db idx key now
  (if live then (store.find idx key).map Entry.dataType else none, store)

/-- The source is popped first; an element that the destination cannot take goes back. -/
def moveGeneric (db now : ℕ) (src dst : Bytes) (fromLeft toLeft : Bool) (store : ShardStore E) :
    Protocol.Value × ShardStore E :=
  if src = dst then store.rmwMut db src now (rotateStep fromLeft toLeft)
  else
    match store.rmwMut db src now (popOneStep fromLeft) with
    | (.error (), store) => (.error .wrongType, store)
    | (.ok none, store) => (.null, store)
    | (.ok (some elem), store) =>
      match typeOf db dst now store with
      | (some .list, store) | (none, store) =>
        (bulk elem, (store.rmwMut db dst now (pushOneStep elem toLeft)).2)
      | (some _, store) =>
        (.error .wrongType, (store.rmwMut db src now (pushOneStep elem fromLeft)).2)

/-- The keys in order, up to the first that does not answer null. -/
def firstServed (db now : ℕ)
    (step : Bytes → Option OccupiedEntryMut → List CollEdit × RmwStep Protocol.Value) :
    List Bytes → ShardStore E → Option Protocol.Value × ShardStore E
  | [], store => (none, store)
  | key :: rest, store =>
    match store.rmwMut db key now (step key) with
    | (.null, store) => firstServed db now step rest store
    | (reply, store) => (some reply, store)

/-- A ready reply, or nothing where every key is empty. -/
def tryBlockOp (human : F64 → Bytes) (db now : ℕ) (spec : BlockSpec) (store : ShardStore E) :
    Option Protocol.Value × ShardStore E :=
  match spec.op with
  | .pop left => firstServed db now (bpopStep · left) spec.keys store
  | .move fromLeft toLeft =>
    match moveGeneric db now (spec.keys.getD 0 []) (spec.keys.getD 1 []) fromLeft toLeft store with
    | (.null, store) => (none, store)
    | (reply, store) => (some reply, store)
  | .lmpop left count => firstServed db now (lmpopStep · left count) spec.keys store
  | .zpop largest => firstServed db now (bzpopStep · largest) spec.keys store
  | .zmpop largest count => firstServed db now (zmpopStep human · largest count) spec.keys store
  | .wait _ => (none, store)

def blockTimeoutReply : Protocol.Value := .array none

/-- A blocking command in a transaction does not wait. -/
def cmdBlockNonblocking (timeouts : Timeouts) (human : F64 → Bytes) (db now : ℕ)
    (cmdUpper : Bytes) (request : Request) (store : ShardStore E) : Protocol.Value × ShardStore E :=
  match parseBlock timeouts cmdUpper request with
  | .error reply => (.error reply, store)
  | .ok spec =>
    let (reply, store) := tryBlockOp human db now spec store
    (reply.getD blockTimeoutReply, store)

end Attempt

end IronCache.Serve
