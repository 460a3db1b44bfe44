import IronCache.Dash.Segment
import IronCache.Lib.Extendible
import Mathlib.Data.Nat.Log

/-!
# The index

`DashIndex` of `ironcache-dashtable/src/index.rs`. A panic of the source is `none`, and so is a
split loop that does not end within its fuel.
-/

namespace IronCache.Dash

def maxGlobalDepth : ℕ := 20

def maxSplits : ℕ := 64

def bitFromTop (hash : BitVec 64) (n : ℕ) : Bool := hash >>> (64 - n) &&& 1 == 1

/-- A directory over segments, of which several entries may name the same one. -/
structure DashIndex (α : Type) where
  globalDepth : ℕ
  directory : List ℕ
  segments : List (Segment α)
  len : ℕ

/-- What `entry` hands out: a record that matched, or a place for one. -/
inductive Entry where
  | occupied (seg : ℕ) (loc : Loc)
  | vacant (seg : ℕ) (fp : BitVec 8)

namespace DashIndex

variable {α : Type}

def new : DashIndex α := ⟨0, [], [], 0⟩

/-- The top bits of the hash. -/
def dirIndex (index : DashIndex α) (hash : BitVec 64) : ℕ :=
  if index.globalDepth = 0 then 0 else (hash >>> (64 - index.globalDepth)).toNat

/-- The segment a hash is routed to; `some none` for the empty shape. -/
def route (index : DashIndex α) (hash : BitVec 64) : Option (Option ℕ) :=
  if index.directory.isEmpty then some none
  else index.directory[index.dirIndex hash]?.map some

/-- The first segment is made at the first write. -/
def ensureInit (index : DashIndex α) : DashIndex α :=
  if index.directory.isEmpty then
    { index with
      directory := index.directory ++ [0]
      segments := index.segments ++ [Segment.new 0] }
  else index

/-- Where a value is; `none` outside means that the directory is broken. -/
def probe (index : DashIndex α) (hash : BitVec 64) (eq : α → Bool) : Option (Option (ℕ × Loc)) := do
  match ← index.route hash with
  | none => some none
  | some si =>
    let seg ← index.segments[si]?
    some ((seg.locate (fingerprint hash) eq).map fun loc => (si, loc))

def get (index : DashIndex α) (si : ℕ) (loc : Loc) : Option α :=
  index.segments[si]?.bind fun seg => seg.get loc

section

variable (index : DashIndex α)

def write (si : ℕ) (loc : Loc) (item : α) : DashIndex α :=
  { index with segments := index.segments.modify si fun seg => seg.set loc item }

def remove (si : ℕ) (loc : Loc) : DashIndex α :=
  { index with
    segments := index.segments.modify si fun seg => seg.removeAt loc
    len := index.len - 1 }

def insert (si : ℕ) (fp : BitVec 8) (value : α) : DashIndex α :=
  { index with
    segments := index.segments.modify si fun seg => seg.push fp value
    len := index.len + 1 }

def find (hash : BitVec 64) (eq : α → Bool) : Option (Option α) := do
  match ← index.probe hash eq with
  | none => some none
  | some (si, loc) => (index.get si loc).map some

/-- The record found, and the index with `change` written through the borrow of it. -/
def findMut (hash : BitVec 64) (eq : α → Bool) (change : α → α) : Option (Option α × DashIndex α) := do
  match ← index.probe hash eq with
  | none => some (none, index)
  | some (si, loc) =>
    let item ← index.get si loc
    some (some item, index.write si loc (change item))

def findEntry (hash : BitVec 64) (eq : α → Bool) : Option (Option (ℕ × Loc)) :=
  index.probe hash eq

def doubleDirectory : DashIndex α :=
  { index with
    directory := Extendible.double index.directory
    globalDepth := index.globalDepth + 1 }

end

/-- One turn of the move out of a segment that splits: a record goes to the buddy if its next bit is
set. -/
def place (hasher : α → BitVec 64) (newLocal buddyIdx segIdx : ℕ) (index : DashIndex α)
    (record : BitVec 8 × α) : DashIndex α :=
  index.insert (if bitFromTop (hasher record.2) newLocal then buddyIdx else segIdx) record.1 record.2

/-- The part of `split` behind the doubling: the segment and a new buddy share its records and its
slots by one more bit. -/
def divide (hasher : α → BitVec 64) (index : DashIndex α) (segIdx : ℕ) (seg : Segment α) :
    DashIndex α :=
  let newLocal := seg.localDepth + 1
  let buddyIdx := index.segments.length
  let (drained, emptied) := seg.drainAll
  let index := { index with
    segments := (index.segments ++ [Segment.new newLocal]).set segIdx { emptied with localDepth := newLocal }
    len := index.len - drained.length }
  let index := drained.foldl (place hasher newLocal buddyIdx segIdx) index
  let shift := index.globalDepth - newLocal
  { index with directory := Extendible.repoint segIdx buddyIdx shift index.directory }

/-- The directory doubles if the segment is as deep as it. -/
def split (hasher : α → BitVec 64) (index : DashIndex α) (dirIdx : ℕ) : Option (DashIndex α) := do
  let segIdx ← index.directory[dirIdx]?
  let seg ← index.segments[segIdx]?
  let index := if seg.localDepth = index.globalDepth then index.doubleDirectory else index
  some (index.divide hasher segIdx seg)

/-- Splits until the segment has room or no split can help. -/
def makeRoom (hasher : α → BitVec 64) (hash : BitVec 64) :
    (fuel splits : ℕ) → DashIndex α → Option (DashIndex α)
  | 0, _, _ => none
  | fuel + 1, splits, index => do
      let si ← index.directory[index.dirIndex hash]?
      let seg ← index.segments[si]?
      if seg.count < segmentCap ∨ splits ≥ maxSplits then some index
      else if seg.allFpsEqual (fingerprint hash) && seg.iter.all (fun item => hasher item == hash) then
        some index
      else if seg.localDepth = index.globalDepth ∧ index.globalDepth ≥ maxGlobalDepth then some index
      else
        let index ← index.split hasher (index.dirIndex hash)
        makeRoom hasher hash fuel (splits + 1) index

def entry (hasher : α → BitVec 64) (index : DashIndex α) (hash : BitVec 64) (eq : α → Bool) :
    Option (Entry × DashIndex α) := do
  let index := index.ensureInit
  let fp := fingerprint hash
  let si ← index.directory[index.dirIndex hash]?
  let seg ← index.segments[si]?
  match seg.locate fp eq with
  | some loc => some (.occupied si loc, index)
  | none =>
    let index ← makeRoom hasher hash (maxSplits + 1) 0 index
    let si ← index.directory[index.dirIndex hash]?
    some (.vacant si fp, index)

/-- The sum is checked: one that does not fit a machine word ends the process. -/
def reserve (index : DashIndex α) (additional : BitVec 64) : Option (DashIndex α) :=
  let needed := index.len + additional.toNat
  if needed ≥ 2 ^ 64 then none
  else if needed = 0 then some index
  else
    -- the logarithm of the next power of two
    let targetDepth := min (Nat.clog 2 ((needed + 55) / (segmentCap * 7 / 8))) maxGlobalDepth
    if index.directory.isEmpty then
      some { index with
        globalDepth := targetDepth
        directory := List.range (2 ^ targetDepth)
        segments := List.replicate (2 ^ targetDepth) (Segment.new targetDepth) }
    else some (doubleDirectory^[targetDepth - index.globalDepth] index)

def iter (index : DashIndex α) : List α := index.segments.flatMap Segment.iter

end DashIndex

end IronCache.Dash
