import IronCache.Lib.Bytes

/-!
# The replication ring

The log of observed writes (`ironcache-repl/src/observer.rs`, `disk_backlog.rs`) and the shipping
pass of `stream.rs`. A spilled segment stands here for the operations it was made of; `SegmentFile`
has its file.
-/

namespace IronCache.Repl

/-- A write of the stream under its offset. -/
inductive StreamOp where
  | put (offset db : ℕ) (key kvobjBytes : Bytes)
  | del (offset db : ℕ) (key : Bytes)
deriving DecidableEq

def StreamOp.offset : StreamOp → ℕ
  | .put offset _ _ _ => offset
  | .del offset _ _ => offset

def StreamOp.key : StreamOp → Bytes
  | .put _ _ key _ => key
  | .del _ _ key => key

/-- The same write under another offset. -/
def StreamOp.at (offset : ℕ) : StreamOp → StreamOp
  | .put _ db key kvobjBytes => .put offset db key kvobjBytes
  | .del _ db key => .del offset db key

@[simp]
theorem StreamOp.offset_at (offset : ℕ) (op : StreamOp) : (op.at offset).offset = offset := by
  cases op <;> rfl

/-- A spilled run of consecutive operations and the size of its file. -/
structure Segment where
  first : ℕ
  last : ℕ
  ops : List StreamOp
  bytes : ℕ
deriving DecidableEq

/-- Segments on disk, oldest first. -/
structure DiskBacklog where
  maxBytes : ℕ
  segments : List Segment := []
  totalBytes : ℕ := 0
deriving DecidableEq

namespace DiskBacklog

variable (disk : DiskBacklog)

def oldestOffset : Option ℕ := disk.segments.head?.map Segment.first

def newestOffset : Option ℕ := disk.segments.getLast?.map Segment.last

/-- The bytes of a record on disk. -/
def recordLen : StreamOp → ℕ
  | .put _ _ key kvobjBytes => 1 + 8 + 4 + 4 + key.length + 4 + kvobjBytes.length
  | .del _ _ key => 1 + 8 + 4 + 4 + key.length

/-- The length of an encoded segment: header, records and checksum. -/
def segmentLen (ops : List StreamOp) : ℕ := 32 + (ops.map recordLen).sum + 4

/-- Drops segments from the front while the files exceed the bound, but never the last one. -/
def evictToBound (maxBytes : ℕ) : List Segment → ℕ → List Segment × ℕ
  | oldest :: next :: rest, totalBytes =>
    if maxBytes < totalBytes then evictToBound maxBytes (next :: rest) (totalBytes - oldest.bytes)
    else (oldest :: next :: rest, totalBytes)
  | segments, totalBytes => (segments, totalBytes)

/-- Consecutive operations carry consecutive offsets. -/
def contiguous : List StreamOp → Bool
  | op :: next :: rest => next.offset == op.offset + 1 && contiguous (next :: rest)
  | _ => true

/-- Appends a segment, or refuses a batch that would leave a hole. -/
def spill (ops : List StreamOp) : Option DiskBacklog :=
  match ops.head?, ops.getLast? with
  | some first, some last =>
    if disk.newestOffset.all (first.offset == · + 1) && contiguous ops then
      let segment : Segment := ⟨first.offset, last.offset, ops, segmentLen ops⟩
      let kept := evictToBound disk.maxBytes (disk.segments ++ [segment]) (disk.totalBytes + segment.bytes)
      some { disk with segments := kept.1, totalBytes := kept.2 }
    else none
  | _, _ => none

/-- The longest run without a hole, expecting the given offset first if there is one. -/
def gapFree : Option ℕ → List StreamOp → List StreamOp
  | _, [] => []
  | expected, op :: rest =>
    if expected.all (op.offset == ·) then op :: gapFree (some (op.offset + 1)) rest else []

/-- The spilled operations above a cursor, at most the given number, up to the first hole. -/
def opsAfter (cursor max : ℕ) : List StreamOp :=
  let pending := disk.segments.filter (cursor < ·.last)
  gapFree none (((pending.flatMap Segment.ops).filter (cursor < ·.offset)).take max)

/-- A segment goes only when the cut covers all of it. -/
def dropThrough (cut : ℕ) : List Segment → ℕ → List Segment × ℕ
  | oldest :: rest, totalBytes =>
    if oldest.last ≤ cut then dropThrough cut rest (totalBytes - oldest.bytes)
    else (oldest :: rest, totalBytes)
  | [], totalBytes => ([], totalBytes)

/-- Drops the segments that lie wholly at or below a cut. -/
def pruneThrough (cut : ℕ) : DiskBacklog :=
  let kept := dropThrough cut disk.segments disk.totalBytes
  { disk with segments := kept.1, totalBytes := kept.2 }

end DiskBacklog

/-- The last writes in memory, with what may lie on disk behind them. -/
structure ReplRing where
  ops : List StreamOp := []
  cap : ℕ
  head : ℕ
  acked : ℕ
  mustResync : Bool := false
  disk : Option DiskBacklog := none
  spillStage : List StreamOp := []
deriving DecidableEq

namespace ReplRing

def withDisk (cap start : ℕ) (disk : Option DiskBacklog) : ReplRing :=
  { cap := max cap 1, head := start, acked := start, disk }

def new (cap start : ℕ) : ReplRing := withDisk cap start none

variable (ring : ReplRing)

def needsResync : Bool := ring.mustResync

def oldestRetained : ℕ := (ring.ops.head?.map StreamOp.offset).getD ring.head

/-- The oldest write that memory or disk still has. -/
def oldestRecoverable : ℕ :=
  match ring.disk.bind DiskBacklog.oldestOffset with
  | some oldest => oldest
  | none => (ring.spillStage.head?.map StreamOp.offset).getD ring.oldestRetained

/-- Whether every operation above an offset can still be recovered. -/
def canServeFrom (offset : ℕ) : Bool :=
  ring.head ≤ offset || ring.oldestRecoverable ≤ offset + 1

/-- Stages an evicted operation for the disk; past the bound the oldest staged one is given up. -/
def stage (evicted : List StreamOp) : ReplRing :=
  let staged := ring.spillStage ++ evicted
  if ring.cap < staged.length then { ring with spillStage := staged.tail, mustResync := true }
  else { ring with spillStage := staged }

/-- Makes room for one more operation: without a disk the evicted one is lost for good. -/
def evict : ReplRing :=
  if ring.cap ≤ ring.ops.length then
    let shorter := { ring with ops := ring.ops.tail }
    match ring.disk with
    | some _ => shorter.stage ring.ops.head?.toList
    | none => { shorter with mustResync := true }
  else ring

/-- The ring numbers the write; the oldest makes room. -/
def push (op : StreamOp) : ReplRing :=
  let assigned := ring.head + 1
  let room := { ring with head := assigned }.evict
  { room with ops := room.ops ++ [op.at assigned] }

def opsAfter (cursor max : ℕ) : List StreamOp :=
  (ring.ops.filter (cursor < ·.offset)).take max

/-- Writes out what was pushed out of memory. -/
def flushSpill : ReplRing :=
  if ring.spillStage = [] then ring
  else
    let emptied := { ring with spillStage := [] }
    match ring.disk with
    | none => { emptied with mustResync := true }
    | some disk =>
      match disk.spill ring.spillStage with
      | some longer => { emptied with disk := some longer }
      | none => { emptied with mustResync := true }

/-- The operations above a cursor: what is read from the disk below the retained window, then memory. -/
def recoverFrom (read : DiskBacklog → ℕ → ℕ → List StreamOp) (cursor max : ℕ) : List StreamOp :=
  if max = 0 then []
  else
    match ring.disk with
    | none => ring.opsAfter cursor max
    | some disk =>
      let oldest := ring.oldestRetained
      if oldest ≤ cursor + 1 then ring.opsAfter cursor max
      else
        let spilled := read disk cursor max
        -- Memory continues the disk only where the two runs abut.
        if spilled.getLast?.any (·.offset + 1 == oldest) && spilled.length < max then
          spilled ++ ring.opsAfter (oldest - 1) (max - spilled.length)
        else spilled

def recoverOpsAfter (cursor max : ℕ) : List StreamOp := ring.recoverFrom DiskBacklog.opsAfter cursor max

/-- An acknowledgement does not go back, nor past the head. -/
def ack (offset : ℕ) : ReplRing :=
  let acked := max ring.acked (min offset ring.head)
  { ring with
    acked
    ops := ring.ops.dropWhile (·.offset ≤ acked)
    disk := ring.disk.map (·.pruneThrough acked) }

def rebase (cut : ℕ) : ReplRing :=
  { ring with
    acked := max ring.acked cut
    ops := ring.ops.dropWhile (·.offset ≤ cut)
    spillStage := ring.spillStage.dropWhile (·.offset ≤ cut)
    disk := ring.disk.map (·.pruneThrough cut)
    mustResync := false }

end ReplRing

/-- How a pass over the ring ended. -/
inductive ShipOutcome where
  | shipped (count : ℕ)
  | resyncNeeded
  | linkDown
deriving DecidableEq

/-- What one shipping pass leaves: the ring, the cursor, the frames sent and its answer. -/
structure Shipment where
  ring : ReplRing
  cursor : ℕ
  frames : List StreamOp
  outcome : ShipOutcome
deriving DecidableEq

/-- Ships the next batch above a cursor; `send` says which frames the link takes. -/
def drainAndShip (send : StreamOp → Bool) (ring : ReplRing) (cursor max : ℕ) : Shipment :=
  let ring := if ring.disk.isSome then ring.flushSpill else ring
  if ring.needsResync then ⟨ring, cursor, [], .resyncNeeded⟩
  else if !ring.canServeFrom cursor then ⟨ring, cursor, [], .resyncNeeded⟩
  else
    let batch := ring.recoverOpsAfter cursor max
    let sent := batch.takeWhile send
    ⟨ring, ((batch.getLast?.map StreamOp.offset).getD cursor).max cursor, sent,
      if sent = batch then .shipped batch.length else .linkDown⟩

end IronCache.Repl
