import IronCache.Store.Shard

/-!
# Eviction to a budget

`evict_to_fit` of `ironcache-store/src/lib.rs`.
-/

namespace IronCache.Store

open EvictionPolicy

namespace ShardStore

variable {E : Type} [EvictionPolicy E]

def evictPoolCap : ℕ := 64

structure ColdEntry where
  freq : ℕ
  scanH : UInt64
  key : Bytes
  db : ℕ
deriving DecidableEq

/-- Colder: by frequency, then in scan order, then by database. -/
def ColdEntry.lt (left right : ColdEntry) : Bool :=
  left.freq < right.freq || left.freq == right.freq &&
    (left.scanH < right.scanH || left.scanH == right.scanH &&
      (left.key < right.key || left.key == right.key && left.db < right.db))

/-- A candidate joins the coldest ones, kept coldest first, unless they are full and none of them
is warmer. -/
def keepColdest (heap : List ColdEntry) (candidate : ColdEntry) : List ColdEntry :=
  if evictPoolCap ≤ heap.length ∧ !heap.getLast?.any candidate.lt then heap
  else (heap.takeWhile (·.lt candidate) ++ candidate :: heap.dropWhile (·.lt candidate)).take evictPoolCap

def residents (store : ShardStore E) : List (ℕ × Bytes × Entry) :=
  (List.range store.dbs.length).flatMap fun db => (store.table db).toList.map fun binding =>
    (db, binding)

/-- One scan: entries that are due are reaped, the coldest eligible ones become the pool, coldest
last. -/
def refillEvictPool (now : ℕ) (store : ShardStore E) : ShardStore E :=
  let volatileOnly := volatileOnly store.eviction
  let (expired, live) := store.residents.partition fun resident => resident.2.2.isExpired now
  let eligible := live.filter fun resident => !(volatileOnly && resident.2.2.expireAt.isNone)
  let heap := eligible.foldl (fun heap resident =>
      keepColdest heap ⟨resident.2.2.freq, scanHash resident.2.1, resident.2.1, resident.1⟩)
    []
  let store := expired.foldl (fun store resident =>
      (store.expireIfDue resident.1 (store.dbIndex resident.1) resident.2.1 now).2)
    store
  { store with evictPool := heap.reverse.map fun cold => ⟨cold.db, cold.key, cold.freq⟩ }

/-- What one candidate popped off the pool comes to: it is gone, due, spared, warm in a pool not
scanned in this call, or evicted. -/
def evictCandidate (candidate : PoolCandidate) (refilled : Bool) (now : ℕ)
    (store : ShardStore E) : ℕ × Bool × ShardStore E :=
  let idx := store.dbIndex candidate.db
  match store.find idx candidate.key with
  | none => (0, refilled, store)
  | some entry =>
    if entry.isExpired now then
      (0, refilled, (store.expireIfDue candidate.db idx candidate.key now).2)
    else if volatileOnly store.eviction && entry.expireAt.isNone then
      (0, refilled, store)
    else if 0 < max candidate.freq entry.freq && !refilled then
      (0, true, { store with evictPool := [] }.refillEvictPool now)
    else
      let (removed, store) := store.removeObject candidate.db idx candidate.key
      (if removed then 1 else 0, refilled, store)

/-- The pooled loop, for a number of turns. -/
def evictToFitPooled (budget now : ℕ) : ℕ → Bool → ShardStore E → ℕ × ShardStore E
  | 0, _, store => (0, store)
  | turns + 1, refilled, store =>
    if store.usedMemory ≤ budget then (0, store)
    else
      let (store, refilled) :=
        if store.evictPool.isEmpty then (store.refillEvictPool now, true) else (store, refilled)
      if store.usedMemory ≤ budget then (0, store)
      else
        match store.evictPool.getLast? with
        | none => (0, store)
        | some candidate =>
          let (evicted, refilled, store) :=
            { store with evictPool := store.evictPool.dropLast }.evictCandidate candidate refilled now
          let (more, store) := evictToFitPooled budget now turns refilled store
          (evicted + more, store)

def decFreq (store : ShardStore E) (place : ℕ × Bytes) : ShardStore E :=
  let idx := store.dbIndex place.1
  match store.find idx place.2 with
  | some entry => store.setEntry idx place.2 (entry.setFreq (entry.freq - 1))
  | none => store

def selectVictim (store : ShardStore E) : Option (ℕ × Bytes) × ShardStore E :=
  let freq := fun db key => (store.find (store.dbIndex db) key).map Entry.freq
  let (victim, decremented, eviction) := EvictionHook.selectVictim freq store.eviction
  (victim, decremented.foldl decFreq { store with eviction })

/-- The roster loop. The keys skipped since the last progress bound it, and so do the rounds. -/
def evictToFitRoster (budget now : ℕ) : ℕ → OrdSet (ℕ ×ₗ Bytes) → ShardStore E → ℕ × ShardStore E
  | 0, _, store => (0, store)
  | rounds + 1, skipped, store =>
    if store.usedMemory ≤ budget then (0, store)
    else
      match store.selectVictim with
      | (none, store) => (0, store)
      | (some (db, key), store) =>
        let idx := store.dbIndex db
        match store.find idx key with
        | none => evictToFitRoster budget now rounds skipped (store.policyRemove db key 0)
        | some entry =>
          if entry.isExpired now then
            evictToFitRoster budget now rounds ∅ (store.expireIfDue db idx key now).2
          else if volatileOnly store.eviction && entry.expireAt.isNone then
            let store :=
              { store with eviction := reRegister db key store.eviction }
            let skipped := skipped.insert (toLex (db, key))
            if store.len ≤ skipped.toList.length then (0, store)
            else evictToFitRoster budget now rounds skipped store
          else
            let (removed, store) := store.removeObject db idx key
            let (more, store) := evictToFitRoster budget now rounds (if removed then ∅ else skipped) store
            ((if removed then 1 else 0) + more, store)

def evictToFit (turns budget now : ℕ) (store : ShardStore E) : ℕ × ShardStore E :=
  if store.usedMemory ≤ budget then (0, store)
  else
    match victimStrategy store.eviction with
    | .none => (0, store)
    | .tableScanLowestFreq => store.evictToFitPooled budget now turns false
    | .roster => store.evictToFitRoster budget now (store.len * 4 + 64) ∅

end ShardStore

end IronCache.Store
