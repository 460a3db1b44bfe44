import IronCache.Raft.Types

/-!
# The storage seam

`MemStorage` and the mutations of the `RaftStorage` trait, as values that a crash can cut short.
-/

namespace IronCache.Raft

/-- The persisted state of a node: term, vote, the log above the compaction point, the
latest snapshot and the membership it was taken under. -/
structure MemStorage where
  currentTerm : ℕ := 0
  votedFor : Option NodeId := none
  log : List LogEntry := []
  logStart : ℕ := 0
  snapMeta : Option SnapshotMeta := none
  snapData : List UInt8 := []
  configBaseline : Option (NodeSet × NodeSet) := none
deriving DecidableEq

namespace MemStorage

variable (storage : MemStorage)

/-- The index of the first entry of the log. -/
def start : ℕ :=
  if storage.logStart = 0 then 1 else storage.logStart

variable (index : ℕ)

/-- Where an index stands in the list, if it is there. -/
def posOf : Option ℕ :=
  if index < storage.start then none
  else if index - storage.start < storage.log.length then some (index - storage.start)
  else none

def setCurrentTerm (term : ℕ) : MemStorage :=
  { storage with currentTerm := term }

def setVotedFor (vote : Option NodeId) : MemStorage :=
  { storage with votedFor := vote }

/-- The snapshot stands for a log that has been compacted away. -/
def lastLogIndex : ℕ :=
  match storage.log.getLast? with
  | some entry => entry.index
  | none => storage.snapMeta.elim 0 (·.lastIncludedIndex)

def lastLogTerm : ℕ :=
  match storage.log.getLast? with
  | some entry => entry.term
  | none => storage.snapMeta.elim 0 (·.lastIncludedTerm)

def append (entry : LogEntry) : MemStorage :=
  { storage with log := storage.log ++ [entry] }

/-- The term of the surviving log entry at an index, zero when there is none. -/
def logTermAt : ℕ :=
  ((storage.posOf index).bind (storage.log[·]?)).elim 0 (·.term)

/-- The term at an index; zero for the sentinel, for an index past the end and for a
compacted index other than the snapshot's own. -/
def termAt : ℕ :=
  if index = 0 then 0
  else
    match storage.snapMeta with
    | some snapshot =>
      if index = snapshot.lastIncludedIndex then snapshot.lastIncludedTerm
      else storage.logTermAt index
    | none => storage.logTermAt index

/-- What is left of the log from an index on. -/
def entriesFrom : List LogEntry :=
  storage.log.drop (max index storage.start - storage.start)

/-- Drops the entry of the index and all behind it. -/
def truncateFrom : MemStorage :=
  let keep := if index ≤ storage.start then 0 else index - storage.start
  if keep < storage.log.length then { storage with log := storage.log.take keep }
  else storage

def appendEntries (entries : List LogEntry) : MemStorage :=
  { storage with log := storage.log ++ entries }

def entryAt : Option LogEntry :=
  if index = 0 then none else (storage.posOf index).bind (storage.log[·]?)

def saveSnapshot (snapshot : SnapshotMeta) (data : List UInt8) :
    MemStorage :=
  { storage with snapMeta := some snapshot, snapData := data }

def loadSnapshot : Option (SnapshotMeta × List UInt8) :=
  storage.snapMeta.map fun snapshot => (snapshot, storage.snapData)

/-- Drops the log up to the index, which the snapshot holds. -/
def compactTo : MemStorage :=
  if index < storage.start ∨ index = 0 then storage
  else
    let drop := min (index - storage.start + 1) storage.log.length
    { storage with log := storage.log.drop drop, logStart := index + 1 }

def logStartIndex : ℕ := storage.start

def saveConfigBaseline (voters learners : NodeSet) : MemStorage :=
  { storage with configBaseline := some (voters, learners) }

def loadConfigBaseline : Option (NodeSet × NodeSet) :=
  storage.configBaseline

theorem compactTo_fields : (storage.compactTo index).currentTerm = storage.currentTerm ∧
      (storage.compactTo index).votedFor = storage.votedFor ∧
      (storage.compactTo index).snapMeta = storage.snapMeta ∧
      (storage.compactTo index).snapData = storage.snapData ∧
      (storage.compactTo index).configBaseline = storage.configBaseline := by
  unfold compactTo
  split_ifs <;> simp

theorem truncateFrom_fields : (storage.truncateFrom index).currentTerm = storage.currentTerm ∧
      (storage.truncateFrom index).votedFor = storage.votedFor ∧
      (storage.truncateFrom index).snapMeta = storage.snapMeta ∧
      (storage.truncateFrom index).snapData = storage.snapData ∧
      (storage.truncateFrom index).configBaseline = storage.configBaseline := by
  unfold truncateFrom
  dsimp only
  split_ifs <;> simp

end MemStorage

/-- A write to the durable state. -/
inductive StorageOp where
  | setCurrentTerm (term : ℕ)
  | setVotedFor (vote : Option NodeId)
  | append (entry : LogEntry)
  | truncateFrom (index : ℕ)
  | appendEntries (entries : List LogEntry)
  | saveSnapshot (snapshot : SnapshotMeta) (data : List UInt8)
  | compactTo (index : ℕ)
  | saveConfigBaseline (voters learners : NodeSet)
deriving DecidableEq

namespace MemStorage

def write (storage : MemStorage) : StorageOp → MemStorage
  | .setCurrentTerm term => storage.setCurrentTerm term
  | .setVotedFor vote => storage.setVotedFor vote
  | .append entry => storage.append entry
  | .truncateFrom index => storage.truncateFrom index
  | .appendEntries entries => storage.appendEntries entries
  | .saveSnapshot snapshot data => storage.saveSnapshot snapshot data
  | .compactTo index => storage.compactTo index
  | .saveConfigBaseline voters learners => storage.saveConfigBaseline voters learners

def writeAll (storage : MemStorage) (ops : List StorageOp) : MemStorage :=
  ops.foldl write storage

@[simp]
theorem writeAll_nil (storage : MemStorage) : storage.writeAll [] = storage := rfl

@[simp]
theorem writeAll_append (storage : MemStorage) (first second : List StorageOp) :
    storage.writeAll (first ++ second) = (storage.writeAll first).writeAll second :=
  List.foldl_append

end MemStorage

end IronCache.Raft
