import IronCache.Protocol.Slot
import IronCache.Repl.Spans

/-!
# Importing a slot

The importer of a slot (`replica_attach.rs`) merges a snapshot and a tail into its live store, and
dials again when the link drops.
-/

namespace IronCache.Repl

open Store Codec Protocol
open List
open ShardStore

/-- Where an attempt is: none is under way, or it waits for the sync, loads it or follows the
tail. -/
inductive ImportPhase where
  | idle
  | waiting
  | loading
  | tailing
deriving DecidableEq

structure Importer (F : Type) where
  store : ShardStore F
  phase : ImportPhase

section Receive

variable {F : Type} [EvictionHook F]

/-- A frame of the scoped tail; what is not in the slot is left out. -/
def applyScoped (slot : ℕ) (frame : Frame) (now : ℕ) (store : ShardStore F) : ShardStore F :=
  match frame with
  | .streamPut _ db key kvobjBytes =>
    if keySlot key = slot then
      match decodeKvobj kvobjBytes with
      | some object => store.insertObject db object
      | none => store
    else store
  | .streamDel _ db key => if keySlot key = slot then (store.delete db key now).2 else store
  | _ => store

/-- One frame for `receive_scoped_snapshot` and then `run_import_tail`. -/
def Importer.receive (slot : ℕ) (importer : Importer F) (frame : Frame) (now : ℕ) : Importer F :=
  match importer.phase, frame with
  | .idle, _ => importer
  | .waiting, .fullSync _ _ => { importer with phase := .loading }
  | .waiting, .syncKv _ _ _ => { importer with phase := .idle }
  | .loading, .syncKv db _ kvobjBytes =>
    match decodeKvobj kvobjBytes with
    | some object => { importer with store := importer.store.insertObject db object }
    | none => { importer with phase := .idle }
  | .waiting, .syncEnd _ | .loading, .syncEnd _ => { importer with phase := .tailing }
  | .tailing, frame => { importer with store := applyScoped slot frame now importer.store }
  | _, _ => importer

end Receive

/-- The frames of a slot among the operations that a pass takes. -/
def scopedFrames (slot : ℕ) (ops : List StreamOp) : List Frame :=
  (ops.filter fun op => keySlot op.key == slot).map opToFrame

/-- The source with its ring, the connection and the frames on it, and the importer. -/
structure Migration (E F : Type) where
  source : ShardStore E
  ring : ReplRing
  feed : Option Feed
  frames : List Frame
  importer : Importer F

inductive Migration.Action where
  | write (op : Op)
  | dial (now : ℕ)
  | chunk (max : ℕ)
  | finish
  | drain (send : StreamOp → Bool) (max : ℕ)
  | deliver (now : ℕ)

namespace Migration

variable {E F : Type} [EvictionPolicy E] [EvictionPolicy F]

/-- Another dial drops the connection before it, whatever was on it. -/
def step (replid : Bytes) (slot : ℕ) (state : Migration E F) : Action → Migration E F
  | .write op =>
    { state with
      source := op.step state.source
      ring := state.ring.pushAll (news state.source op) }
  | .dial now =>
    { state with
      feed := some (.syncing state.ring.head now .start)
      frames := [.fullSync replid state.ring.head]
      importer := { state.importer with phase := .waiting } }
  | .chunk max =>
    match state.feed with
    | some (.syncing cut now cursor) =>
      if cursor.isDone state.source.databases then state
      else
        let (entries, next) := state.source.snapshotChunk cursor max now
        { state with
          feed := some (.syncing cut now next)
          frames := state.frames ++ syncFrames (admitted (keySlot · == slot) entries) }
    | _ => state
  | .finish =>
    match state.feed with
    | some (.syncing cut _ cursor) =>
      if cursor.isDone state.source.databases then
        { state with feed := some (.tailing cut), frames := state.frames ++ [.syncEnd cut] }
      else state
    | _ => state
  | .drain send max =>
    match state.feed with
    | some (.tailing cursor) =>
      let shipment := drainAndShip send state.ring cursor max
      { state with
        ring := shipment.ring
        feed := afterPass shipment
        frames := state.frames ++ scopedFrames slot shipment.frames }
    | _ => state
  | .deliver now =>
    match state.frames with
    | [] => state
    | frame :: frames =>
      { state with frames, importer := state.importer.receive slot frame now }

def run (replid : Bytes) (slot : ℕ) (state : Migration E F) (actions : List Action) :
    Migration E F :=
  actions.foldl (step replid slot) state

def Throughout (replid : Bytes) (slot : ℕ) (property : Migration E F → Action → Prop) :
    Migration E F → List Action → Prop
  | _, [] => True
  | state, action :: actions =>
    property state action ∧ Throughout replid slot property (state.step replid slot action) actions

def Lawful (state : Migration E F) : Action → Prop
  | .write op => op.Honest ∧ op.WellFormed ∧ ∀ event ∈ news state.source op, FitsEvent event
  | _ => True

/-- The source changes only in ways its observer hears of. -/
def Observable (state : Migration E F) : Action → Prop
  | .write op => op.Observable state.source
  | _ => True

end Migration

/-- What the frame carries is of the slot, or under the key the frame names. -/
def Scoped (slot : ℕ) : Frame → Prop
  | .syncKv _ _ kvobjBytes => ∀ object, decodeKvobj kvobjBytes = some object → keySlot object.key = slot
  | .streamPut _ _ key kvobjBytes => ∀ object, decodeKvobj kvobjBytes = some object → object.key = key
  | _ => True

/-- A step of the importer keeps every other slot. -/
structure Spares (slot : ℕ) (store next : ShardStore F) : Prop where
  kept : Kept store next
  others : ∀ place, keySlot place.2 ≠ slot → next.contents place = store.contents place

section Spares

variable {F : Type} {slot : ℕ}

theorem Spares.refl (store : ShardStore F) : Spares slot store store := ⟨.refl store, fun _ _ => rfl⟩

variable {store : ShardStore F} {frame : Frame}

theorem Spares.of_update (kept : Kept store later)
    (written : later.contents = Function.update store.contents place image)
    (inside : keySlot place.2 = slot) : Spares slot store later where
  kept := kept
  others := fun other outside => by
    have away : other ≠ place := by
      rintro rfl
      exact outside inside
    rw [written, Function.update_of_ne away]

variable [EvictionPolicy F]

theorem spares_insertObject (present : 0 < store.databases) (inside : keySlot object.key = slot) :
    Spares slot store (store.insertObject db object) := by
  obtain ⟨image, -, traced⟩ := traced_putObject present db object.key (.fromKvobj object)
  exact .of_update ⟨traced.passive, traced.thresholds, traced.databases⟩ traced.contents inside

private theorem applyScoped_spares (present : 0 < store.databases) (active : store.passive = false)
    (within : Scoped slot frame) : Spares slot store (applyScoped slot frame now store) := by
  unfold applyScoped
  split
  · rename_i db key kvobjBytes
    split
    · rename_i inside
      split
      · rename_i object decoded
        exact spares_insertObject present ((within object decoded).symm ▸ inside)
      · exact .refl store
    · exact .refl store
  · rename_i db key
    split
    · rename_i inside
      have moves : Moves Op.funnel store (store.delete db key now).2 :=
        moves_delete trivial key now
      exact .of_update moves.kept (delete_active present active) inside
    · exact .refl store
  · exact .refl store

theorem Importer.receive_spares {importer : Importer F} (present : 0 < importer.store.databases)
    (active : importer.store.passive = false) (within : Scoped slot frame) (now : ℕ) :
    Spares slot importer.store (importer.receive slot frame now).store := by
  unfold Importer.receive
  split
  case h_4 =>
    split
    · rename_i object decoded
      exact spares_insertObject present (within object decoded)
    · exact .refl _
  case h_7 => exact applyScoped_spares present active within
  all_goals exact .refl _

end Spares

theorem afterPass_eq_some (given : afterPass shipment = some feed) :
    feed = .tailing shipment.cursor ∧ ∃ count, shipment.outcome = .shipped count := by
  unfold afterPass at given
  split at given
  · rename_i count shipped
    cases given
    exact ⟨rfl, count, shipped⟩
  · cases given
  · cases given

/-- Where a connection stands in the log. -/
def Feed.floor : Feed → ℕ
  | .syncing cut _ _ => cut
  | .tailing cursor => cursor

namespace Migration

variable {E F : Type}

/-- The source can be shipped, its ring spans its log, and the importer keeps every other slot. -/
structure Guarded (slot start : ℕ) (origin : ShardStore F) (state : Migration E F) : Prop where
  recorded : Recorded state.source
  spans : state.ring.Spans start (heard state.source)
  tables : origin.databases = state.source.databases
  count : state.importer.store.databases = state.source.databases
  active : state.importer.store.passive = false
  fed : ∀ feed ∈ state.feed, start ≤ feed.floor ∧ feed.floor ≤ start + (heard state.source).length
  frames : ∀ frame ∈ state.frames, Scoped slot frame
  others : ∀ place, keySlot place.2 ≠ slot → state.importer.store.contents place = origin.contents place

variable {slot start : ℕ} {origin : ShardStore F} {state : Migration E F} {replid : Bytes}

theorem key_decoded {entry : Entry} {key : Bytes} (formed : entry.Formed key)
    (fits : FitsObject entry.toKvobj) {object : KvObj}
    (decoded : decodeKvobj (encodeKvobj entry.toKvobj) = some object) : object.key = key := by
  obtain ⟨other, same, shaped, -⟩ := exists_decoded formed fits
  cases decoded.symm.trans same
  exact shaped.1

variable {source : ShardStore E}

private theorem scoped_syncFrames (recorded : Recorded source) {cursor : SnapshotCursor} {max now : ℕ} :
    ∀ frame ∈ syncFrames (admitted (keySlot · == slot)
      (source.snapshotChunk cursor max now).1), Scoped slot frame := by
  intro frame member
  obtain ⟨⟨db, key, object⟩, shipped, rfl⟩ := mem_map.mp member
  obtain ⟨listed, inside⟩ := mem_filter.mp shipped
  obtain ⟨-, entry, found, -, rfl⟩ :=
    ((walked_snapshotChunk cursor max now source).listed db key object).mp listed
  intro object decoded
  rw [key_decoded (Formed.find recorded.formed found) (recorded.fits.find found) decoded]
  exact beq_iff_eq.mp inside

private theorem scoped_scopedFrames (recorded : Recorded source)
    (part : ops <+: (numbered start (heard source)).drop index) :
    ∀ frame ∈ scopedFrames slot ops, Scoped slot frame := by
  intro frame member
  obtain ⟨op, shipped, rfl⟩ := mem_map.mp member
  have listed := mem_of_mem_drop (part.subset (mem_of_mem_filter shipped))
  obtain ⟨⟨event, offset⟩, logged, rfl⟩ := mem_map.mp listed
  obtain ⟨formed, fits⟩ := recorded.images event (fst_mem_of_mem_zipIdx logged)
  cases event with
  | put db key entry => exact fun object decoded => key_decoded formed fits decoded
  | remove db key => trivial

/-- The connection moves on without leaving its place in the log. -/
theorem Guarded.ship (guarded : Guarded slot start origin state) {before after : Feed}
    (fed : before ∈ state.feed) (same : after.floor = before.floor)
    {more : List Frame} (within : ∀ frame ∈ more, Scoped slot frame) :
    Guarded slot start origin { state with feed := some after, frames := state.frames ++ more } := by
  refine { guarded with fed := fun feed given => ?_, frames := fun frame member => ?_ }
  · cases given
    exact same ▸ guarded.fed before fed
  · exact (mem_append.mp member).elim (guarded.frames frame) (within frame)

variable [EvictionPolicy E] [EvictionPolicy F]

section Actions

variable (guarded : Guarded slot start origin state)
include guarded

theorem Guarded.write {op : Op} (lawful : Lawful state (.write op))
    (observable : Observable state (.write op)) :
    Guarded slot start origin (state.step replid slot (.write op)) := by
  have written := guarded.recorded.write lawful.1 lawful.2.1 observable lawful.2.2
  refine { guarded with
    recorded := written.recorded
    spans := ?_
    tables := guarded.tables.trans written.databases.symm
    count := guarded.count.trans written.databases.symm
    fed := ?_ }
  · change (state.ring.pushAll (news state.source op)).Spans start (heard (op.step state.source))
    rw [written.heard]
    exact guarded.spans.pushAll _
  · intro feed given
    obtain ⟨above, below⟩ := guarded.fed feed given
    refine ⟨above, below.trans ?_⟩
    change _ ≤ start + (heard (op.step state.source)).length
    rw [written.heard, length_append]
    omega

theorem Guarded.chunk (max : ℕ) : Guarded slot start origin (state.step replid slot (.chunk max)) := by
  unfold Migration.step
  dsimp only
  split
  · rename_i fed
    split
    · exact guarded
    · exact guarded.ship fed (by rfl) (scoped_syncFrames guarded.recorded)
  · exact guarded

theorem Guarded.finish : Guarded slot start origin (state.step replid slot .finish) := by
  unfold Migration.step
  dsimp only
  split
  · rename_i fed
    split
    · refine guarded.ship fed (by rfl) fun frame member => ?_
      cases mem_singleton.mp member
      trivial
    · exact guarded
  · exact guarded

theorem Guarded.drain (send : StreamOp → Bool) (max : ℕ) :
    Guarded slot start origin (state.step replid slot (.drain send max)) := by
  have head := guarded.spans.head
  unfold Migration.step
  dsimp only
  split
  · rename_i cursor fed
    obtain ⟨above, below⟩ : start ≤ cursor ∧ cursor ≤ start + (heard state.source).length :=
      guarded.fed _ fed
    obtain ⟨spans, part, moved⟩ := guarded.spans.drain above send max
    refine { guarded with
      spans := spans
      fed := fun feed given => ?_
      frames := fun frame member => ?_ }
    · obtain ⟨rfl, count, shipped⟩ := afterPass_eq_some given
      change start ≤ (drainAndShip send state.ring cursor max).cursor ∧
        (drainAndShip send state.ring cursor max).cursor ≤ start + (heard state.source).length
      have short := part.length_le
      rw [length_drop, length_numbered] at short
      rw [moved count shipped]
      omega
    · exact (mem_append.mp member).elim (guarded.frames frame)
        (scoped_scopedFrames guarded.recorded part frame)
  · exact guarded

theorem Guarded.deliver (now : ℕ) : Guarded slot start origin (state.step replid slot (.deliver now)) := by
  unfold Migration.step
  dsimp only
  split
  · exact guarded
  rename_i frame frames framed
  have within : Scoped slot frame :=
    guarded.frames frame (framed ▸ mem_cons_self)
  have present : 0 < state.importer.store.databases :=
    guarded.count ▸ guarded.recorded.present
  have spares := Importer.receive_spares present guarded.active within now
  exact { guarded with
    count := spares.kept.databases.trans guarded.count
    active := spares.kept.passive.trans guarded.active
    frames := fun other member =>
      guarded.frames other (framed ▸ mem_cons_of_mem _ member)
    others := fun place outside =>
      (spares.others place outside).trans (guarded.others place outside) }

theorem Guarded.step {action : Action} (lawful : Lawful state action)
    (observable : Observable state action) :
    Guarded slot start origin (state.step replid slot action) := by
  cases action with
  | write op => exact guarded.write lawful observable
  | dial now =>
    refine { guarded with fed := fun feed given => ?_, frames := fun frame member => ?_ }
    · cases given
      rw [guarded.spans.head]
      exact ⟨Nat.le_add_right _ _, le_rfl⟩
    · cases mem_singleton.mp member
      trivial
  | chunk max => exact guarded.chunk max
  | finish => exact guarded.finish
  | drain send max => exact guarded.drain send max
  | deliver now => exact guarded.deliver now

end Actions

end Migration

end IronCache.Repl
