import IronCache.Lib.Codec
import IronCache.Repl.Kept

/-!
# The files of the disk backlog

How `ironcache-repl/src/disk_backlog.rs` writes a segment and reads it back. What it reads is what
was written, as long as the numbers fit the bytes they are written in.
-/

namespace IronCache.Repl

open List Codec

@[match_pattern] abbrev tagPut : UInt8 := 0
@[match_pattern] abbrev tagDel : UInt8 := 1

/-- One entry of the table that `build_crc_table` makes. -/
def crcTable (index : UInt32) : UInt32 :=
  (fun crc : UInt32 => if crc &&& 1 = 1 then (crc >>> 1) ^^^ 0xEDB88320 else crc >>> 1)^[8] index

def crc32 (data : Bytes) : UInt32 :=
  let step (crc : UInt32) (byte : UInt8) := (crc >>> 8) ^^^ crcTable ((crc ^^^ byte.toUInt32) &&& 0xFF)
  data.foldl step 0xFFFFFFFF ^^^ 0xFFFFFFFF

namespace StreamOp

def db : StreamOp → ℕ
  | .put _ db _ _ => db
  | .del _ db _ => db

/-- The image a record carries behind the key. -/
def image : StreamOp → Bytes
  | .put _ _ _ kvobjBytes => kvobjBytes
  | .del _ _ _ => []

/-- The numbers of a record fit their bytes; the source casts both lengths to four. -/
structure Fits (op : StreamOp) : Prop where
  db : op.db < 256 ^ 4
  key : op.key.length < 256 ^ 4
  image : op.image.length < 256 ^ 4

instance decidableFits (op : StreamOp) : Decidable op.Fits :=
  decidable_of_iff (op.db < 256 ^ 4 ∧ op.key.length < 256 ^ 4 ∧ op.image.length < 256 ^ 4)
    ⟨fun fits => ⟨fits.1, fits.2.1, fits.2.2⟩, fun fits => ⟨fits.db, fits.key, fits.image⟩⟩

theorem Fits.at {op : StreamOp} (fits : op.Fits) (offset : ℕ) : (op.at offset).Fits := by
  cases op <;> exact ⟨fits.db, fits.key, fits.image⟩

end StreamOp

/-- A byte string behind its length, which is cut to four bytes. -/
def putBlob32 (bytes : Bytes) : Bytes := leBytes 4 bytes.length ++ bytes

def putOpRecord : StreamOp → Bytes
  | .put offset db key kvobjBytes =>
    tagPut :: (leBytes 8 offset ++ (leBytes 4 db ++ (putBlob32 key ++ putBlob32 kvobjBytes)))
  | .del offset db key => tagDel :: (leBytes 8 offset ++ (leBytes 4 db ++ putBlob32 key))

def segmentMagic : Bytes := [73, 67, 82, 66]

def formatVersion : ℕ := 1

def encodeSegment (first last : ℕ) (ops : List StreamOp) : Bytes :=
  let body := ops.flatMap putOpRecord
  segmentMagic ++ (leBytes 4 formatVersion ++ (leBytes 8 first ++ (leBytes 8 last ++
    (leBytes 8 ops.length ++ (body ++ leBytes 4 (crc32 body).toNat)))))

def getBlob32 : Reader Bytes := do
  let length ← le 4
  take length

/-- The next record of a body, whose offset must follow the one before it. -/
def getOpRecord (prev : Option ℕ) : Reader StreamOp := do
  let tag ← byte
  let offset ← le 8
  let db ← le 4
  let key ← getBlob32
  if prev.all (offset == · + 1) then
    match tag with
    | tagPut => return .put offset db key (← getBlob32)
    | tagDel => return .del offset db key
    | _ => failure
  else failure

def decodeOpRecords : ℕ → Option ℕ → Reader (List StreamOp)
  | 0, _ => return []
  | count + 1, prev => do
    let op ← getOpRecord prev
    let later ← decodeOpRecords count (some op.offset)
    return op :: later

/-- The magic, the version, the two offsets and the count. -/
def getHeader : Reader (Bytes × ℕ × ℕ × ℕ × ℕ) := do
  let magic ← take 4
  let version ← le 4
  let first ← le 8
  let last ← le 8
  let count ← le 8
  return (magic, version, first, last, count)

/-- The operations of a segment file, or nothing if any check of it fails. -/
def readSegment (bytes : Bytes) (expectFirst expectLast : ℕ) : Option (List StreamOp) :=
  match getHeader.run bytes with
  | none => none
  | some ((magic, version, first, last, count), rest) =>
    let body := rest.take (rest.length - 4)
    if rest.length < 4 ∨ magic ≠ segmentMagic ∨ version ≠ formatVersion then none
    else if first ≠ expectFirst ∨ last ≠ expectLast then none
    else if (crc32 body).toNat ≠ leValue (rest.drop (rest.length - 4)) then none
    else
      match readAll (decodeOpRecords count none) body with
      | none => none
      | some ops =>
        if ops.head?.map StreamOp.offset ≠ some first ∨ ops.getLast?.map StreamOp.offset ≠ some last then none
        else some ops

/-- The file of a segment gives its operations. -/
def Segment.Readable (segment : Segment) : Prop :=
  readSegment (encodeSegment segment.first segment.last segment.ops) segment.first segment.last =
    some segment.ops

section

variable {op : StreamOp} {ops : List StreamOp} {prev : Option ℕ}

private theorem reads_blob32 {bytes : Bytes} (fits : bytes.length < 256 ^ 4) :
    Reads getBlob32 (putBlob32 bytes) bytes :=
  (reads_le fits).bind (reads_take bytes)

private theorem reads_opRecord (fits : op.Fits) (inRange : op.offset < 256 ^ 8)
    (follows : prev.all (op.offset == · + 1) = true) : Reads (getOpRecord prev) (putOpRecord op) op := by
  cases op with
  | put offset db key kvobjBytes =>
    refine reads_byte.bind ((reads_le inRange).bind ((reads_le fits.db).bind ((reads_blob32 fits.key).bind ?_)))
    rw [if_pos follows]
    exact (reads_blob32 fits.image).last _
  | del offset db key =>
    refine reads_byte.bind ((reads_le inRange).bind ((reads_le fits.db).bind ?_))
    rw [← append_nil (putBlob32 key)]
    refine (reads_blob32 fits.key).bind ?_
    rw [if_pos follows]
    exact .pure _

private theorem reads_opRecords (fits : ∀ op ∈ ops, op.Fits ∧ op.offset < 256 ^ 8)
    (run : DiskBacklog.contiguous ops = true)
    (follows : ∀ op ∈ ops.head?, prev.all (op.offset == · + 1) = true) :
    Reads (decodeOpRecords ops.length prev) (ops.flatMap putOpRecord) ops := by
  induction ops generalizing prev with
  | nil => exact .pure []
  | cons op ops ih =>
    have rest : DiskBacklog.contiguous ops = true ∧ ∀ next ∈ ops.head?, next.offset = op.offset + 1 := by
      cases ops with
      | nil => exact ⟨rfl, fun _ none => by cases none⟩
      | cons next ops =>
        rw [DiskBacklog.contiguous, Bool.and_eq_true, beq_iff_eq] at run
        exact ⟨run.2, by rintro _ ⟨⟩; exact run.1⟩
    obtain ⟨own, inRange⟩ := fits op mem_cons_self
    have later := @ih (some op.offset) (fun other member => fits other (mem_cons_of_mem _ member)) rest.1
      fun next begins => beq_iff_eq.mpr (rest.2 next begins)
    exact (reads_opRecord own inRange (follows op rfl)).bind (later.last (op :: ·))

private theorem length_putOpRecord (op : StreamOp) : (putOpRecord op).length = DiskBacklog.recordLen op := by
  cases op <;> simp [putOpRecord, putBlob32, DiskBacklog.recordLen] <;> omega

/-- The size that is counted for a segment is that of its file. -/
theorem length_encodeSegment (first last : ℕ) (ops : List StreamOp) :
    (encodeSegment first last ops).length = DiskBacklog.segmentLen ops := by
  have body : (ops.flatMap putOpRecord).length = (ops.map DiskBacklog.recordLen).sum := by
    rw [length_flatMap]
    simp only [length_putOpRecord]
  simp [encodeSegment, DiskBacklog.segmentLen, segmentMagic, body]
  omega

private theorem reads_header (first last count : ℕ)
    (inRange : first < 256 ^ 8 ∧ last < 256 ^ 8 ∧ count < 256 ^ 8) :
    Reads getHeader (segmentMagic ++ (leBytes 4 formatVersion ++ (leBytes 8 first ++ (leBytes 8 last ++
      leBytes 8 count)))) (segmentMagic, formatVersion, first, last, count) :=
  (reads_take segmentMagic).bind ((reads_le (by decide)).bind ((reads_le inRange.1).bind
    ((reads_le inRange.2.1).bind ((reads_le inRange.2.2).last _))))

/-- A segment is read back as it was written. -/
theorem readSegment_encodeSegment {segment : Segment} (tidy : DiskBacklog.Tidy segment)
    (fits : ∀ op ∈ segment.ops, op.Fits ∧ op.offset < 256 ^ 8) (short : segment.ops.length < 256 ^ 8) :
    segment.Readable := by
  obtain ⟨first, begins, leads⟩ := Option.map_eq_some_iff.mp tidy.first
  obtain ⟨last, ends, closes⟩ := Option.map_eq_some_iff.mp tidy.last
  have header := reads_header segment.first segment.last segment.ops.length
    ⟨leads ▸ (fits first (mem_of_mem_head? begins)).2, closes ▸ (fits last (mem_of_getLast? ends)).2, short⟩
  have records := readAll_of_reads (@reads_opRecords segment.ops none fits tidy.run fun _ _ => rfl)
  set body := segment.ops.flatMap putOpRecord with made
  have taken : (body ++ leBytes 4 (crc32 body).toNat).take
      ((body ++ leBytes 4 (crc32 body).toNat).length - 4) = body :=
    take_left' (by simp)
  have stored : (body ++ leBytes 4 (crc32 body).toNat).drop
      ((body ++ leBytes 4 (crc32 body).toNat).length - 4) = leBytes 4 (crc32 body).toNat :=
    drop_left' (by simp)
  have opened := header (body ++ leBytes 4 (crc32 body).toNat)
  simp only [append_assoc] at opened
  unfold Segment.Readable readSegment encodeSegment
  dsimp only
  rw [← made, opened]
  dsimp only
  rw [taken, stored, leValue_leBytes (crc32 body).toNat_lt, records, if_neg (by simp), if_neg (by simp),
    if_neg (by simp)]
  dsimp only
  rw [tidy.first, tidy.last, if_neg (by simp)]

end

/-- The operations of the files in turn, up to the first that is not read back. -/
def readBack : List Segment → List StreamOp
  | [] => []
  | segment :: segments =>
    match readSegment (encodeSegment segment.first segment.last segment.ops) segment.first segment.last with
    | none => []
    | some ops => ops ++ readBack segments

/-- The spilled operations above a cursor as `ops_after` reads them from the files. -/
def DiskBacklog.filesAfter (disk : DiskBacklog) (cursor max : ℕ) : List StreamOp :=
  let pending := disk.segments.filter (cursor < ·.last)
  gapFree none (((readBack pending).filter (cursor < ·.offset)).take max)

def ReplRing.recoverFilesAfter (ring : ReplRing) (cursor max : ℕ) : List StreamOp :=
  ring.recoverFrom DiskBacklog.filesAfter cursor max

private theorem readBack_eq {segments : List Segment} (readable : ∀ segment ∈ segments, segment.Readable) :
    readBack segments = segments.flatMap Segment.ops := by
  induction segments with
  | nil => rfl
  | cons segment segments ih =>
    unfold readBack
    rw [show readSegment _ _ _ = _ from readable segment mem_cons_self,
      ih fun other member => readable other (mem_cons_of_mem _ member)]
    rfl

/-- While every file is readable, the files give what the segments were made of. -/
theorem ReplRing.recoverFilesAfter_eq {ring : ReplRing}
    (readable : ∀ disk ∈ ring.disk, ∀ segment ∈ disk.segments, segment.Readable) (cursor max : ℕ) :
    ring.recoverFilesAfter cursor max = ring.recoverOpsAfter cursor max := by
  unfold recoverFilesAfter recoverOpsAfter recoverFrom
  cases installed : ring.disk with
  | none => rfl
  | some disk =>
    have same : disk.filesAfter cursor max = disk.opsAfter cursor max := by
      unfold DiskBacklog.filesAfter DiskBacklog.opsAfter
      dsimp only
      rw [readBack_eq fun segment member => readable disk installed segment (mem_of_mem_filter member)]
    dsimp only
    rw [same]

end IronCache.Repl
