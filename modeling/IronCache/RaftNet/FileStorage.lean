import IronCache.Raft.Storage
import IronCache.RaftNet.Record

/-!
# The durable storage

`FileStorage` of `ironcache-raft-net/src/storage.rs`: a log, a snapshot and a baseline on disk, and
a mirror in memory that answers every read.
-/

namespace IronCache.RaftNet

open Codec Framing Raft

def crc32Poly : UInt32 := 0xEDB88320

def crc32 (data : List UInt8) : UInt32 :=
  let shift (crc : UInt32) : UInt32 := (crc >>> 1) ^^^ (crc32Poly &&& (0 - (crc &&& 1)))
  ~~~ data.foldl (fun crc byte => shift^[8] (crc ^^^ byte.toUInt32)) 0xFFFFFFFF

def encodeFramed (body : List UInt8) : Option (List UInt8) :=
  if body.length < 256 ^ 4 then some (frame crc32 body) else none

def encodeFrame (record : Record) : Option (List UInt8) := encodeFramed (encodeBody record)

def encodeSnapshotFrame (snapshot : SnapshotMeta) (data : List UInt8) : Option (List UInt8) :=
  encodeFramed (putU64 snapshot.lastIncludedIndex ++ (putU64 snapshot.lastIncludedTerm ++ putBlob data))

def getSnapshot : Reader (SnapshotMeta × List UInt8) := do
  let lastIncludedIndex ← u64
  let lastIncludedTerm ← u64
  let data ← blob
  return (⟨lastIncludedIndex, lastIncludedTerm⟩, data)

def encodeConfigBaselineFrame (voters learners : NodeSet) : Option (List UInt8) :=
  encodeFramed (putNodeSet voters ++ putNodeSet learners)

def getConfigBaseline : Reader (NodeSet × NodeSet) := do
  let voters ← readNodeSet
  let learners ← readNodeSet
  return (voters, learners)

/-- Read the value of a file that holds one frame; an absent or damaged file has none. -/
def loadFile (reader : Reader α) (file : Option (List UInt8)) : Option α :=
  match file.bind (unframe crc32) with
  | none => none
  | some (body, _) =>
    match reader.run body with
    | some (value, []) => some value
    | _ => none

def loadSnapshotFile : Option (List UInt8) → Option (SnapshotMeta × List UInt8) :=
  loadFile getSnapshot

def loadConfigBaselineFile : Option (List UInt8) → Option (NodeSet × NodeSet) :=
  loadFile getConfigBaseline

abbrev Mirror := MemStorage

namespace Mirror

/-- Apply a record. An entry below the start of the log is one that a snapshot has overtaken. -/
def apply (mirror : Mirror) : Record → Mirror
  | .setTerm term => mirror.setCurrentTerm term
  | .setVote vote => mirror.setVotedFor vote
  | .appendEntry entry => if mirror.start ≤ entry.index then mirror.append entry else mirror
  | .truncate index => mirror.truncateFrom index

end Mirror

def replayInto (seed : Mirror) (bytes : List UInt8) : Mirror × ℕ :=
  replay crc32 decodeBody Mirror.apply seed bytes

/-- What survives a crash: the record log and the two files beside it. -/
structure Disk where
  log : List UInt8 := []
  snap : Option (List UInt8) := none
  cfg : Option (List UInt8) := none
deriving DecidableEq

structure FileStorage where
  disk : Disk := {}
  mirror : Mirror := {}
deriving DecidableEq

namespace FileStorage

/-- The mirror before the log is replayed: the snapshot decides where the log starts. -/
def seed (disk : Disk) : Mirror :=
  match loadSnapshotFile disk.snap with
  | some (snapshot, data) =>
    { logStart := snapshot.lastIncludedIndex + 1
      snapMeta := some snapshot
      snapData := data
      configBaseline := loadConfigBaselineFile disk.cfg }
  | none => { configBaseline := loadConfigBaselineFile disk.cfg }

/-- Open the storage on what a disk holds, and cut off what is torn. -/
def openOn (disk : Disk) : FileStorage :=
  let replayed := replayInto (seed disk) disk.log
  { disk := { disk with log := disk.log.take replayed.2 }, mirror := replayed.1 }

def appendRecords (storage : FileStorage) (records : List Record) : Option FileStorage := do
  let frames ← records.mapM encodeFrame
  return {
    disk := { storage.disk with log := storage.disk.log ++ frames.flatten }
    mirror := records.foldl Mirror.apply storage.mirror }

def persistSnapshot (storage : FileStorage) (snapshot : SnapshotMeta) (data : List UInt8) :
    Option FileStorage := do
  let frame ← encodeSnapshotFrame snapshot data
  return {
    disk := { storage.disk with snap := some frame }
    mirror := storage.mirror.saveSnapshot snapshot data }

def persistConfigBaseline (storage : FileStorage) (voters learners : NodeSet) :
    Option FileStorage := do
  let frame ← encodeConfigBaselineFrame voters learners
  return {
    disk := { storage.disk with cfg := some frame }
    mirror := storage.mirror.saveConfigBaseline voters learners }

/-- Drop the log up to an index and rewrite the log file from what is left. -/
def compactLogTo (storage : FileStorage) (index : ℕ) : Option FileStorage := do
  if index < storage.mirror.start ∨ index = 0 then return storage
  else
    let compacted := storage.mirror.compactTo index
    let frames ← (.setTerm compacted.currentTerm :: .setVote compacted.votedFor ::
      compacted.log.map Record.appendEntry).mapM encodeFrame
    return { disk := { storage.disk with log := frames.flatten }, mirror := compacted }

/-- The records a mutation appends to the log; the other mutations replace a file. -/
def recordsOf : StorageOp → Option (List Record)
  | .setCurrentTerm term => some [.setTerm term]
  | .setVotedFor vote => some [.setVote vote]
  | .append entry => some [.appendEntry entry]
  | .truncateFrom index => some [.truncate index]
  | .appendEntries entries => some (entries.map .appendEntry)
  | _ => none

/-- Carry out one mutation; a panic carries out none. -/
def write (storage : FileStorage) : StorageOp → Option FileStorage
  | .setCurrentTerm term => storage.appendRecords [.setTerm term]
  | .setVotedFor vote => storage.appendRecords [.setVote vote]
  | .append entry => storage.appendRecords [.appendEntry entry]
  | .truncateFrom index => storage.appendRecords [.truncate index]
  | .appendEntries entries => storage.appendRecords (entries.map .appendEntry)
  | .saveSnapshot snapshot data => storage.persistSnapshot snapshot data
  | .compactTo index => storage.compactLogTo index
  | .saveConfigBaseline voters learners => storage.persistConfigBaseline voters learners

def writeAll (storage : FileStorage) (ops : List StorageOp) : Option FileStorage :=
  ops.foldlM write storage

/-- What the disk may hold after a crash while a mutation is carried out: nothing of it or all
of it, and a log cut at any byte of the records it appends. -/
def Interrupted (storage : FileStorage) (op : StorageOp) (disk : Disk) : Prop :=
  disk = storage.disk ∨ (∃ next, storage.write op = some next ∧ disk = next.disk) ∨
    ∃ records frames count, recordsOf op = some records ∧ records.mapM encodeFrame = some frames ∧
      disk = { storage.disk with log := storage.disk.log ++ frames.flatten.take count }

end FileStorage

end IronCache.RaftNet
