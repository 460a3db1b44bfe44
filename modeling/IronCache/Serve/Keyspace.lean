import IronCache.Coord.Routing
import IronCache.Store.Shard

/-!
# Commands on the whole keyspace

The handlers of `cmd_keyspace.rs` on the store of one shard.
-/

namespace IronCache.Serve

open Protocol (Request ErrorReply Value utf8)
open Coord
open Store hiding Value
open Function
open Scatter.Program

inductive TypeFilter where
  | any
  | is (type : DataType)
  | matchNothing

def typeFilterFromName (name : Bytes) : TypeFilter :=
  let lower := name.map lowerByte
  if lower = utf8 "string" then .is .string
  else if lower = utf8 "list" then .is .list
  else if lower = utf8 "set" then .is .set
  else if lower = utf8 "hash" then .is .hash
  else if lower = utf8 "zset" then .is .zset
  else .matchNothing

def TypeFilter.accepts : TypeFilter → DataType → Bool
  | .any, _ => true
  | .is wanted, type => type = wanted
  | .matchNothing, _ => false

structure ScanOptions where
  pattern : Option Bytes := none
  count : ℕ := 10
  typeFilter : TypeFilter := .any

def parseScanOptions : Request → ScanOptions → Except ErrorReply ScanOptions
  | [], options => .ok options
  | [_], _ => .error .syntaxError
  | option :: arg :: rest, options =>
    let optionUpper := asciiUpper option
    if named ["MATCH"] optionUpper then
      parseScanOptions rest { options with pattern := some arg }
    else if named ["COUNT"] optionUpper then
      match parseCount arg with
      | some count =>
        if 0 < count ∧ count < 2 ^ 63 then parseScanOptions rest { options with count := count }
        else .error .syntaxError
      | none => .error .syntaxError
    else if named ["TYPE"] optionUpper then
      parseScanOptions rest { options with typeFilter := typeFilterFromName arg }
    else .error .syntaxError

/-- How the store walks its keys, how a glob matches, and which key a draw picks. -/
structure Walks (E : Type) where
  scanStep : (db : ℕ) → (cursor : UInt64) → (count now : ℕ) → (Bytes → DataType → Bool) →
    ShardStore E → UInt64 × List Bytes
  globMatch : Bytes → Bytes → Bool
  allKeys : (db now : ℕ) → (Bytes → DataType → Bool) → ShardStore E → List Bytes
  randomKey : (db now : ℕ) → ShardStore E → Option Bytes × ShardStore E

def keyBulks (keys : List Bytes) : Value :=
  .array (some (keys.map fun key => .bulkString (some key)))

section Handlers

variable {E : Type} [EvictionHook E] (walks : Walks E)

def cmdKeys (db now : ℕ) (request : Request) (store : ShardStore E) : Value :=
  match request with
  | [_, pattern] => keyBulks (walks.allKeys db now (fun key _ => walks.globMatch pattern key) store)
  | _ => .error (.wrongArity "keys")

def cmdScan (db now : ℕ) (request : Request) (store : ShardStore E) : Value :=
  match request with
  | _ :: token :: tail =>
    match fromToken token with
    | none => .error .invalidCursor
    | some cursor =>
      match parseScanOptions tail {} with
      | .error reply => .error reply
      | .ok options =>
        let (next, keys) := walks.scanStep db cursor options.count now (fun key type =>
          options.typeFilter.accepts type && options.pattern.all (walks.globMatch · key)) store
        .array (some [.bulkString (some (toToken next)), keyBulks keys])
  | _ => .error (.wrongArity "scan")

def cmdDbsize (db : ℕ) (request : Request) (store : ShardStore E) : Value :=
  match request with
  | [_] => .integer (.ofNat (store.dbLen db))
  | _ => .error (.wrongArity "dbsize")

def cmdRandomkey (db now : ℕ) (request : Request) (store : ShardStore E) : Value × ShardStore E :=
  match request with
  | [_] =>
    match walks.randomKey db now store with
    | (some key, store) => (.bulkString (some key), store)
    | (none, store) => (.null, store)
  | _ => (.error (.wrongArity "randomkey"), store)

def flushModeOk : Request → Bool
  | [_] => true
  | [_, mode] => named ["ASYNC", "SYNC"] (asciiUpper mode)
  | _ => false

def cmdFlushdb (db : ℕ) (request : Request) (store : ShardStore E) : Value × ShardStore E :=
  if flushModeOk request then (.ok, store.flushDb db) else (.error .syntaxError, store)

def cmdFlushall (request : Request) (store : ShardStore E) : Value × ShardStore E :=
  if flushModeOk request then (.ok, store.flushAll) else (.error .syntaxError, store)

/-- `dispatch_remote_whole_keyspace`, which the home dispatch agrees with. -/
def dispatchWholeKeyspace (db now : ℕ) (request : Request) (store : ShardStore E) : Value × ShardStore E :=
  let cmdUpper := asciiUpper (command request)
  if named ["DBSIZE"] cmdUpper then (cmdDbsize db request store, store)
  else if named ["KEYS"] cmdUpper then (cmdKeys walks db now request store, store)
  else if named ["SCAN"] cmdUpper then (cmdScan walks db now request store, store)
  else if named ["FLUSHDB"] cmdUpper then cmdFlushdb db request store
  else if named ["FLUSHALL"] cmdUpper then cmdFlushall request store
  else if named ["RANDOMKEY"] cmdUpper then cmdRandomkey walks db now request store
  else (.error (.err (utf8 "command fanned out cross-shard is not whole-keyspace")), store)

end Handlers

section One

variable {shard : ℕ} {reply : ErrorReply} {request : Request} {verb token : Bytes} {cursor : UInt64}

theorem fromToken_toToken (cursor : UInt64) : fromToken (toToken cursor) = some cursor := by
  have small : cursor.toNat < 2 ^ 64 := cursor.toNat_lt
  have filled : (Decimal.print cursor.toNat).isEmpty = false := by
    rw [List.isEmpty_eq_false_iff]
    exact Decimal.print_ne_nil cursor.toNat
  rw [fromToken, toToken, parseCount, filled, if_neg Bool.false_ne_true,
    Decimal.parseFrom_print small, Option.map_some, UInt64.ofNat_toNat]

private theorem rewriteScanReply_one :
    rewriteScanReply (.array (some [.bulkString (some (toToken next)), keys])) 0 1 false =
      .array (some [.bulkString (some (toToken next)), keys]) := by
  have composite : (if next = 0 then if false || decide (1 ≤ 0 + 1) then 0 else compose (0 + 1) 0 1
      else compose 0 next 1) = next := by
    rw [if_pos (show (false || decide (1 ≤ 0 + 1)) = true from rfl)]
    split_ifs with last
    · exact last.symm
    · rfl
  simp only [rewriteScanReply, fromToken_toToken, Option.getD_some]
  rw [composite]

/-- The engine runs a command on the whole keyspace as its handler does. -/
structure RunsWhole {E κ : Type} [EvictionHook E] (walks : Walks E) (now : ℕ)
    (engine : Engine (ShardStore E) κ) : Prop where
  run : ∀ store db request, Coord.classify (asciiUpper (command request)) = .wholeKeyspace →
    engine.run store db request = dispatchWholeKeyspace walks db now request store

variable {E κ : Type} [EvictionHook E] {walks : Walks E} {now : ℕ} {engine : Engine (ShardStore E) κ}

private theorem dispatchWholeKeyspace_scan (walks : Walks E) (scan : utf8 "SCAN" = called request) :
    dispatchWholeKeyspace walks db now request store =
      (cmdScan walks db now request store, store) := by
  simp [dispatchWholeKeyspace, ← scan, named_utf8]

omit [EvictionHook E] in
/-- A cursor may be spelt again. -/
private theorem cmdScan_toToken (walks : Walks E) (parsed : fromToken token = some cursor) :
    cmdScan walks db now (verb :: toToken cursor :: tail) store =
      cmdScan walks db now (verb :: token :: tail) store := by
  simp only [cmdScan, parsed, fromToken_toToken]

omit [EvictionHook E] in
private theorem rewriteScanReply_cmdScan (walks : Walks E) :
    rewriteScanReply (cmdScan walks db now request store) 0 1 false =
      cmdScan walks db now request store := by
  unfold cmdScan
  split
  · split
    · rfl
    split
    · rfl
    · exact rewriteScanReply_one
  · rfl

theorem run_scanCrossShard (runs : RunsWhole walks now engine)
    (scan : utf8 "SCAN" = asciiUpper verb) (parsed : fromToken token = some cursor)
    (named : decompose cursor home.total = (shard, own)) (inside : shard < home.total) :
    (scanCrossShard (verb :: token :: tail) home db false).run engine.serve shards =
      (rewriteScanReply (cmdScan walks db now (verb :: toToken own :: tail) (shards shard)) shard
        home.total false, shards) := by
  have spelt : utf8 "SCAN" = asciiUpper (command (verb :: toToken own :: tail)) := scan
  have served := runs.run (shards shard) db (verb :: toToken own :: tail) (by rw [← spelt]; decide +kernel)
  rw [dispatchWholeKeyspace_scan walks spelt] at served
  simp only [scanCrossShard, List.getElem?_cons_succ, List.getElem?_cons_zero, parsed, named, Bool.false_eq_true,
    if_false]
  rw [if_neg (not_le.mpr inside), run_bind]
  have unit : (unitOn shard db ((verb :: token :: tail).set 1 (toToken own))).run engine.serve
      shards = (cmdScan walks db now (verb :: toToken own :: tail) (shards shard), shards) := by
    change ((engine.run (shards shard) db (verb :: toToken own :: tail)).1, update shards shard
        (engine.run (shards shard) db (verb :: toToken own :: tail)).2) = _
    rw [served]
    exact Prod.ext rfl (update_eq_self shard shards)
  rw [unit]
  rfl

/-- `SCAN` on a node of one shard takes and gives the cursor of that shard. -/
theorem run_scanCrossShard_one (runs : RunsWhole walks now engine)
    (scan : utf8 "SCAN" = called request) (db : ℕ) (shards : ℕ → ShardStore E) :
    (scanCrossShard request ⟨0, 1⟩ db false).run engine.serve shards =
      (cmdScan walks db now request (shards 0), shards) := by
  match request with
  | [] => rfl
  | [_] => rfl
  | verb :: token :: tail =>
    cases parsed : fromToken token with
    | none =>
      simp only [scanCrossShard, cmdScan, List.getElem?_cons_succ, List.getElem?_cons_zero, parsed]
      rfl
    | some cursor =>
      have spelt : utf8 "SCAN" = asciiUpper verb := scan
      have here : decompose cursor (⟨0, 1⟩ : ShardId).total = (0, cursor) := rfl
      rw [run_scanCrossShard runs spelt parsed here Nat.one_pos,
        cmdScan_toToken walks parsed, rewriteScanReply_cmdScan]

end One

end IronCache.Serve
