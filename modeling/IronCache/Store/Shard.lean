import IronCache.Store.Entry

/-!
# The shard store

`ShardStore` of `ironcache-store/src/lib.rs`: the tables, the write funnel with its hooks, and the
operations over it.
-/

namespace IronCache.Store

/-- The hooks of an eviction policy. A victim is chosen with the frequencies of the resident
entries at hand; the answer names the victim and the entries whose frequency it took down. -/
class EvictionHook (E : Type) where
  onInsert : ℕ → Bytes → ℕ → E → E
  onRemove : ℕ → Bytes → ℕ → E → E
  selectVictim : (ℕ → Bytes → Option ℕ) → E → Option (ℕ × Bytes) × List (ℕ × Bytes) × E

/-- How the store finds a victim to evict. -/
inductive VictimStrategy where
  | none
  | roster
  | tableScanLowestFreq
deriving DecidableEq

class EvictionPolicy (E : Type) extends EvictionHook E where
  volatileOnly : E → Bool
  victimStrategy : E → VictimStrategy
  reRegister : ℕ → Bytes → E → E

/-- The policy of a store that evicts nothing. -/
structure NullEviction where
deriving DecidableEq

instance : EvictionPolicy NullEviction where
  onInsert _ _ _ policy := policy
  onRemove _ _ _ policy := policy
  selectVictim _ policy := (none, [], policy)
  volatileOnly _ := false
  victimStrategy _ := .none
  reRegister _ _ policy := policy

/-- A call of the write observer. -/
inductive WriteEvent where
  | put (db : ℕ) (key : Bytes) (entry : Entry)
  | remove (db : ℕ) (key : Bytes)
deriving DecidableEq

/-- The version of a watched key, and how many watch it. -/
structure WatchSlot where
  version : ℕ
  watchers : ℕ
deriving DecidableEq

/-- A key the store may evict, with its frequency. -/
structure PoolCandidate where
  db : ℕ
  key : Bytes
  freq : ℕ
deriving DecidableEq

/-- The write observer is the list of its calls so far, where one is installed. -/
structure ShardStore (E : Type) where
  dbs : List (OrdMap Bytes Entry)
  eviction : E
  used : ℕ := 0
  lazyExpired : ℕ := 0
  watchVersions : OrdMap (ℕ ×ₗ Bytes) WatchSlot := ∅
  versionClock : ℕ := 0
  watchedCount : ℕ := 0
  evictPool : List PoolCandidate := []
  observed : Option (List WriteEvent) := none
  dirtyKeys : Option (OrdSet (ℕ ×ₗ Bytes)) := none
  passive : Bool := false
  encodingThresholds : EncodingThresholds := .defaults
  saving : Bool := false

namespace ShardStore

variable {E : Type}

/-- An empty store of at least one database. -/
def withHooks (databases : ℕ) (eviction : E) : ShardStore E :=
  { dbs := List.replicate (max databases 1) ∅, eviction }

section

variable (store : ShardStore E)

def databases : ℕ := store.dbs.length

/-- A database that does not exist stands for the last one. -/
def dbIndex (db : ℕ) : ℕ := min db (store.dbs.length - 1)

def table (idx : ℕ) : OrdMap Bytes Entry := store.dbs.getD idx ∅

/-- The entry under a key, whether or not its time has come. -/
def find (idx : ℕ) (key : Bytes) : Option Entry :=
  (store.table idx).get? key

def setTable (idx : ℕ) (table : OrdMap Bytes Entry) (store : ShardStore E) : ShardStore E :=
  { store with dbs := store.dbs.set idx table }

def setEntry (idx : ℕ) (key : Bytes) (entry : Entry) (store : ShardStore E) : ShardStore E :=
  store.setTable idx ((store.table idx).insert key entry)

def eraseEntry (idx : ℕ) (key : Bytes) (store : ShardStore E) : ShardStore E :=
  store.setTable idx ((store.table idx).erase key)

/-- The entries of all databases. -/
def len : ℕ := (store.dbs.map (·.toList.length)).sum

def dbLen (db : ℕ) : ℕ := (store.table (store.dbIndex db)).toList.length

/-- The bytes the accounting has counted. -/
def usedMemory : ℕ := store.used

end

/-- A key that nobody watches has no version to raise. -/
def touchWatch (db : ℕ) (key : Bytes) (store : ShardStore E) : ShardStore E :=
  if store.watchedCount = 0 then store
  else
    match store.watchVersions.get? (toLex (db, key)) with
    | some slot =>
      let version := store.versionClock + 1
      { store with
        versionClock := version
        watchVersions := store.watchVersions.insert (toLex (db, key)) { slot with version } }
    | none => store

/-- Every watched key of the database, present or not. -/
def touchAllWatchesInDb (db : ℕ) (store : ShardStore E) : ShardStore E :=
  if store.watchedCount = 0 then store
  else
    store.watchVersions.toList.foldl (fun store watched =>
        if (ofLex watched.1).1 = db then
          let version := store.versionClock + 1
          { store with
            versionClock := version
            watchVersions := store.watchVersions.insert watched.1 { watched.2 with version } }
        else store)
      store

/-- The changed keys, while they are tracked. -/
def touchDirty (db : ℕ) (key : Bytes) (store : ShardStore E) : ShardStore E :=
  { store with dirtyKeys := store.dirtyKeys.map (·.insert (toLex (db, key))) }

/-- Tells the observer, if there is one. -/
def notify (event : WriteEvent) (store : ShardStore E) : ShardStore E :=
  { store with observed := store.observed.map (· ++ [event]) }

/-- The observer is told the entry that the write left. -/
def observePut (db idx : ℕ) (key : Bytes) (store : ShardStore E) : ShardStore E :=
  let store := store.touchDirty db key
  match store.find idx key with
  | some entry => store.notify (.put db key entry)
  | none => store

def observeRemove (db : ℕ) (key : Bytes) (store : ShardStore E) : ShardStore E :=
  (store.touchDirty db key).notify (.remove db key)

def accountAdd (bytes : ℕ) (store : ShardStore E) : ShardStore E :=
  { store with used := store.used + bytes }

def accountSub (bytes : ℕ) (store : ShardStore E) : ShardStore E :=
  { store with used := store.used - bytes }

def setEntryExpire (idx : ℕ) (key : Bytes) (deadline : Option ℕ) (store : ShardStore E) :
    ShardStore E :=
  match store.find idx key with
  | some entry => store.setEntry idx key (entry.setExpireAt deadline)
  | none => store

section Funnel

variable [EvictionHook E]

def policyInsert (db : ℕ) (key : Bytes) (bytes : ℕ) (store : ShardStore E) : ShardStore E :=
  { store with eviction := EvictionHook.onInsert db key bytes store.eviction }

def policyRemove (db : ℕ) (key : Bytes) (bytes : ℕ) (store : ShardStore E) : ShardStore E :=
  { store with eviction := EvictionHook.onRemove db key bytes store.eviction }

/-- Removes an entry, crediting a weight measured before. -/
def removeObjectCrediting (db idx : ℕ) (key : Bytes) (bytes : ℕ) (store : ShardStore E) :
    Bool × ShardStore E :=
  let store := store.touchWatch db key
  match store.find idx key with
  | some _ =>
    let store := store.eraseEntry idx key
    let store := store.accountSub bytes
    let store := store.policyRemove db key bytes
    (true, store.observeRemove db key)
  | none => (false, store)

/-- Raises the version whether or not the key is there. -/
def removeObject (db idx : ℕ) (key : Bytes) (store : ShardStore E) : Bool × ShardStore E :=
  let store := store.touchWatch db key
  match store.find idx key with
  | some entry =>
    let bytes := entry.accountedBytes
    let store := store.eraseEntry idx key
    let store := store.accountSub bytes
    let store := store.policyRemove db key bytes
    (true, store.observeRemove db key)
  | none => (false, store)

/-- Whether a key is present and not due. A due key is removed, unless the store is passive. -/
def expireIfDue (db idx : ℕ) (key : Bytes) (now : ℕ) (store : ShardStore E) : Bool × ShardStore E :=
  match store.find idx key with
  | some entry =>
    if entry.isExpired now then
      if store.passive then (false, store)
      else
        let (removed, store) := store.removeObject db idx key
        (false, if removed then { store with lazyExpired := store.lazyExpired + 1 } else store)
    else (true, store)
  | none => (false, store)

/-- Writes an entry; one that replaces another keeps its frequency and its place in the policy. -/
def putObject (db idx : ℕ) (key : Bytes) (entry : Entry) (store : ShardStore E) : Bool × ShardStore E :=
  let store := store.touchWatch db key
  let bytes := entry.accountedBytes
  match store.find idx key with
  | some old =>
    let store := store.setEntry idx key (entry.setFreq old.freq)
    let store := store.accountSub old.accountedBytes
    let store := store.accountAdd bytes
    (true, store.observePut db idx key)
  | none =>
    let store := store.setEntry idx key entry
    let store := store.accountAdd bytes
    let store := store.policyInsert db key bytes
    (false, store.observePut db idx key)

end Funnel

end ShardStore

/-- What a write does to the deadline. -/
inductive ExpireWrite where
  | unchanged
  | keep
  | set (deadline : ℕ)
  | clear
deriving DecidableEq

/-- The deadline after a write. -/
def resolveExpire (expire : ExpireWrite) (old : Option ℕ) : Option ℕ :=
  match expire with
  | .unchanged | .keep => old
  | .set deadline => some deadline
  | .clear => none

inductive NewValue where
  | bytes (bytes : Bytes)
  | int (number : ℤ)

def NewValue.toOwned : NewValue → NewValueOwned
  | .bytes text => .bytes text
  | .int number => .int number

/-- What a read-modify-write does to the entry. -/
inductive RmwAction where
  | keep
  | insert (value : NewValueOwned)
  | replace (value : NewValueOwned)
  | delete
  | mutated

/-- What a read-modify-write decides from the entry it finds. -/
structure RmwStep (R : Type) where
  action : RmwAction
  expire : ExpireWrite
  reply : R

/-- What a closure sees of a live entry: its header, and the bytes of a string. -/
structure OccupiedEntry where
  dataType : DataType
  encoding : Encoding
  expireAt : Option ℕ
  bytes : Bytes

/-- The mutable handle: the header, the collection it edits and the live thresholds. -/
structure OccupiedEntryMut where
  dataType : DataType
  encoding : Encoding
  expireAt : Option ℕ
  value : Option CollVal
  thresholds : EncodingThresholds

namespace Entry

def strValueBytes (entry : Entry) : Bytes :=
  match entry.value with
  | .str _ bytes => bytes
  | .coll _ => []

/-- What a command sees of an entry. -/
def occupied (entry : Entry) : OccupiedEntry :=
  ⟨entry.dataType, entry.encoding, entry.expireAt, entry.strValueBytes⟩

/-- What a command that may change a collection sees of it. -/
def occupiedMut (entry : Entry) (thresholds : EncodingThresholds) : OccupiedEntryMut :=
  let value := match entry.value with
    | .str _ _ => none
    | .coll value => some value
  ⟨entry.dataType, entry.encoding, entry.expireAt, value, thresholds⟩

/-- Mutations through the handle, one after the other; a string has no handle to edit. -/
def editAll (entry : Entry) (edits : List CollEdit) : Entry :=
  match entry.value with
  | .str _ _ => entry
  | .coll value => { entry with value := .coll (edits.foldl CollVal.edit value) }

end Entry

inductive MoveMode where
  | rename
  | copy
deriving DecidableEq

/-- How a rename or a copy ended. -/
inductive MoveOutcome where
  | moved
  | copied
  | noSource
  | destExists
deriving DecidableEq

namespace ShardStore

variable {E : Type} [EvictionHook E]

section

variable (db : ℕ)

/-- The view of a live entry; a read counts as an access unless a save is running. -/
def read (key : Bytes) (now : ℕ) (store : ShardStore E) : Option OccupiedEntry × ShardStore E :=
  let idx := store.dbIndex db
  let (live, store) := store.expireIfDue db idx key now
  if live then
    match store.find idx key with
    | some entry =>
      (some entry.occupied, if store.saving then store else store.setEntry idx key entry.bumpFreq)
    | none => (none, store)
  else (none, store)

/-- Reaps the key if its time has come. -/
def contains (key : Bytes) (now : ℕ) (store : ShardStore E) : Bool × ShardStore E :=
  store.expireIfDue db (store.dbIndex db) key now

/-- The deadline of an entry that has expired is not kept. -/
def upsert (key : Bytes) (value : NewValue) (expire : ExpireWrite) (now : ℕ)
    (store : ShardStore E) : Bool × ShardStore E :=
  let idx := store.dbIndex db
  let (existed, store) := store.expireIfDue db idx key now
  let oldDeadline := if existed then (store.find idx key).bind Entry.expireAt else none
  let entry := Entry.fromNewOwned key value.toOwned (resolveExpire expire oldDeadline)
    store.encodingThresholds
  (existed, (store.putObject db idx key entry).2)

/-- An entry that has expired counts as absent. -/
def delete (key : Bytes) (now : ℕ) (store : ShardStore E) : Bool × ShardStore E :=
  let idx := store.dbIndex db
  let (live, store) := store.expireIfDue db idx key now
  if live then store.removeObject db idx key else (false, store)

/-- Stores a value under the encoding thresholds. -/
def putNew (db idx : ℕ) (key : Bytes) (value : NewValueOwned) (expireAt : Option ℕ)
    (store : ShardStore E) : ShardStore E :=
  (store.putObject db idx key (.fromNewOwned key value expireAt store.encodingThresholds)).2

/-- The `Keep` arm: a changed deadline is a write. -/
def retime (db idx : ℕ) (key : Bytes) (old new : Option ℕ) (store : ShardStore E) :
    ShardStore E :=
  if new = old then store
  else ((store.touchWatch db key).setEntryExpire idx key new).observePut db idx key

/-- Read, decide, write. The closure sees the entry read-only, so `Mutated` changes the deadline
at most. -/
def rmw (key : Bytes) (now : ℕ) (f : Option OccupiedEntry → RmwStep R)
    (store : ShardStore E) : R × ShardStore E :=
  let idx := store.dbIndex db
  let (live, store) := store.expireIfDue db idx key now
  match (if live then store.find idx key else none) with
  | none =>
    let step := f none
    let store := match step.action with
      | .keep | .delete | .mutated => store
      | .insert value | .replace value =>
        store.putNew db idx key value (resolveExpire step.expire none)
    (step.reply, store)
  | some entry =>
    let store := if store.saving then store else store.setEntry idx key entry.bumpFreq
    let step := f (some entry.occupied)
    let old := entry.expireAt
    let new := resolveExpire step.expire old
    let store := match step.action with
      | .keep => store.retime db idx key old new
      | .insert value | .replace value => store.putNew db idx key value new
      | .delete => (store.removeObject db idx key).2
      | .mutated => if new = old then store else store.setEntryExpire idx key new
    (step.reply, store)

/-- The `Mutated` arm of `rmwMut`: an emptied collection is removed at the weight it had before
the edit, any other is weighed anew. -/
def commitEdit (db idx : ℕ) (key : Bytes) (oldBytes : ℕ) (edited : Entry) (old new : Option ℕ)
    (store : ShardStore E) : ShardStore E :=
  if edited.value.isEmptyCollection then
    (store.removeObjectCrediting db idx key oldBytes).2
  else
    let store := store.touchWatch db key
    let newBytes := edited.accountedBytes
    let store :=
      if newBytes = oldBytes then store
      else
        (((store.policyRemove db key oldBytes).accountSub oldBytes).accountAdd newBytes).policyInsert
          db key newBytes
    let store := if new = old then store else store.setEntryExpire idx key new
    store.observePut db idx key

/-- Read, edit in place, decide. The closure answers with the edits it made through the handle
and with its decision. -/
def rmwMut (key : Bytes) (now : ℕ)
    (f : Option OccupiedEntryMut → List CollEdit × RmwStep R) (store : ShardStore E) : R × ShardStore E :=
  let idx := store.dbIndex db
  let (live, store) := store.expireIfDue db idx key now
  match (if live then store.find idx key else none) with
  | none =>
    let step := (f none).2
    let store := match step.action with
      | .keep | .delete | .mutated => store
      | .insert value | .replace value =>
        store.putNew db idx key value (resolveExpire step.expire none)
    (step.reply, store)
  | some entry =>
    let accessed := entry.bumpFreq
    let oldBytes := accessed.accountedBytes
    let (edits, step) := f (some (accessed.occupiedMut store.encodingThresholds))
    let edited := accessed.editAll edits
    let store := store.setEntry idx key edited
    let old := edited.expireAt
    let new := resolveExpire step.expire old
    let store := match step.action with
      | .keep => store.retime db idx key old new
      | .insert value | .replace value => store.putNew db idx key value new
      | .delete => (store.removeObjectCrediting db idx key oldBytes).2
      | .mutated => store.commitEdit db idx key oldBytes edited old new
    (step.reply, store)

/-- Stores an object that another node sent. -/
def insertObject (object : KvObj) (store : ShardStore E) : ShardStore E :=
  (store.putObject db (store.dbIndex db) object.key (.fromKvobj object)).2

/-- The deadline is read again: the wheel may offer a stale key. -/
def reapIfExpired (key : Bytes) (now : ℕ) (store : ShardStore E) : Bool × ShardStore E :=
  let idx := store.dbIndex db
  if (store.find idx key).any (·.isExpired now) then store.removeObject db idx key
  else (false, store)

/-- RENAME, COPY and MOVE: the entry goes over as it is, under its new key. -/
def moveObject (srcDb : ℕ) (src : Bytes) (dstDb : ℕ) (dst : Bytes) (mode : MoveMode)
    (replace : Bool) (now : ℕ) (store : ShardStore E) : MoveOutcome × ShardStore E :=
  let srcIdx := store.dbIndex srcDb
  let dstIdx := store.dbIndex dstDb
  let (live, store) := store.expireIfDue srcDb srcIdx src now
  if live then
    if srcIdx = dstIdx ∧ src = dst then
      (match mode with | .rename => .moved | .copy => .copied, store)
    else
      let (dstLive, store) := store.expireIfDue dstDb dstIdx dst now
      if dstLive && !replace then (.destExists, store)
      else
        match store.find srcIdx src with
        | none => (.noSource, store)
        | some entry =>
          let store := (store.putObject dstDb dstIdx dst (entry.rekey dst)).2
          match mode with
          | .rename => (.moved, (store.removeObject srcDb srcIdx src).2)
          | .copy => (.copied, store)
  else (.noSource, store)

/-- Removes every entry, then raises every watched key. -/
def flushDb (store : ShardStore E) : ShardStore E :=
  let idx := store.dbIndex db
  let keys := (store.table idx).toList.map Prod.fst
  let store := keys.foldl (fun store key => (store.removeObject db idx key).2) store
  store.touchAllWatchesInDb db

end

def flushAll (store : ShardStore E) : ShardStore E :=
  (List.range store.dbs.length).foldl (fun store db => store.flushDb db) store

omit [EvictionHook E] in
/-- The tables trade places, past the funnel; only the watches and the dirty keys hear of it. -/
def swapDb (a b : ℕ) (store : ShardStore E) : ShardStore E :=
  let ai := store.dbIndex a
  let bi := store.dbIndex b
  if ai = bi then store
  else
    let left := store.table ai
    let right := store.table bi
    let store := (store.setTable ai right).setTable bi left
    let store := (store.touchAllWatchesInDb a).touchAllWatchesInDb b
    let keys := right.toList.map Prod.fst ++ left.toList.map Prod.fst
    keys.foldl (fun store key => (store.touchDirty a key).touchDirty b key) store

/-- Removes one purged key, past the observer. -/
def purge (idx : ℕ) (key : Bytes) (store : ShardStore E) : ShardStore E :=
  let store := store.touchWatch idx key
  match store.find idx key with
  | some entry =>
    let bytes := entry.accountedBytes
    let store := store.eraseEntry idx key
    let store := store.accountSub bytes
    let store := store.policyRemove idx key bytes
    store.touchDirty idx key
  | none => store

/-- The purge of keys, database by database. -/
def removeKeysWhere (pred : Bytes → Bool) (store : ShardStore E) : ShardStore E :=
  (List.range store.dbs.length).foldl (fun store idx =>
      let victims := (store.table idx).toList.filter fun binding => pred binding.1
      victims.foldl (fun store victim => store.purge idx victim.1) store)
    store

end ShardStore

end IronCache.Store
