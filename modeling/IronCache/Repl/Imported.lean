import IronCache.Repl.Import

/-!
# An imported slot

What the last attempt of an import leaves on the importer.
-/

namespace IronCache.Repl

open Store Codec Protocol
open ShardStore
open Change

def tailFrame (write : WriteEvent × ℕ) : Frame := opToFrame ((observe write.1).at write.2)

private theorem key_observe : ((observe event).at offset).key = event.place.2 := by
  cases event <;> rfl

private theorem key_seen (databases : ℕ) (event : WriteEvent) :
    (event.seen databases).key.2 = event.place.2 := by
  cases event <;> rfl

section Tail

variable {E F : Type} {time slot start cursor : ℕ} {source later : ShardStore E}
  {aim : ℕ × Bytes → Option Reading} {store : ShardStore F} {link : List (WriteEvent × ℕ)}

variable {ops : List StreamOp}

/-- What a pass ships are the first of the writes that are pending. -/
private theorem exists_batch (above : start ≤ cursor)
    (part : ops <+: (numbered start (heard source)).drop (cursor - start)) :
    ∃ batch : List (WriteEvent × ℕ), ops = batch.map (fun write => (observe write.1).at write.2) ∧
      (∀ write ∈ batch, write.1 ∈ heard source) ∧
      pending start source cursor =
        batch.map (·.1.seen source.databases) ++ pending start source (cursor + ops.length) := by
  unfold numbered at part
  rw [← List.map_drop] at part
  obtain ⟨batch, first, rfl⟩ := List.prefix_map_iff.mp part
  obtain ⟨rest, whole⟩ := first
  have logged : (heard source).drop (cursor - start) = (batch ++ rest).map Prod.fst := by
    rw [whole, List.map_drop, List.zipIdx_map_fst]
  refine ⟨batch, rfl, fun write member => ?_, ?_⟩
  · have among : write.1 ∈ (heard source).drop (cursor - start) := by
      rw [logged]
      exact List.mem_map_of_mem (List.mem_append_left _ member)
    exact List.mem_of_mem_drop among
  · unfold pending
    rw [Nat.sub_add_comm above, ← List.drop_drop, logged, List.length_map, List.map_append,
      List.drop_left' (List.length_map _), List.map_append, List.map_map]
    rfl

/-- What is on the link and what is pending lead the importer to its aim. -/
structure Trails (time slot start : ℕ) (source : ShardStore E) (aim : ℕ × Bytes → Option Reading)
    (store : ShardStore F) (link : List (WriteEvent × ℕ)) (cursor : ℕ) : Prop where
  count : store.databases = source.databases
  active : store.passive = false
  logged : ∀ write ∈ link, write.1 ∈ heard source ∧ keySlot write.1.place.2 = slot
  follows : ∀ place, keySlot place.2 = slot → Follows (unexpired time) store.readings aim
    (link.map (·.1.seen source.databases) ++ pending start source cursor) place

theorem Trails.extend (trails : Trails time slot start source aim store link cursor)
    (written : Extends source later events) (below : cursor ≤ start + (heard source).length) :
    Trails time slot start later (replay aim (events.map (·.seen source.databases))) store
      link cursor where
  count := trails.count.trans written.databases.symm
  active := trails.active
  logged := fun write member => by
    rw [written.heard]
    exact ⟨List.mem_append_left _ (trails.logged write member).1, (trails.logged write member).2⟩
  follows := fun place inside => by
    rw [written.pending below, written.databases, ← List.append_assoc]
    exact (trails.follows place inside).extend _

theorem Trails.drain (trails : Trails time slot start source aim store link cursor)
    (above : start ≤ cursor) (part : ops <+: (numbered start (heard source)).drop (cursor - start)) :
    ∃ more, scopedFrames slot ops = more.map tailFrame ∧
      Trails time slot start source aim store (link ++ more) (cursor + ops.length) := by
  obtain ⟨batch, rfl, among, ahead⟩ := exists_batch above part
  refine ⟨batch.filter (keySlot ·.1.place.2 == slot), ?_, trails.count, trails.active,
    fun write member => ?_, fun place inside => ?_⟩
  · unfold scopedFrames
    rw [List.filter_map, List.map_map]
    simp only [Function.comp_def, key_observe]
    rfl
  · rcases List.mem_append.mp member with old | new
    · exact trails.logged write old
    · obtain ⟨listed, within⟩ := List.mem_filter.mp new
      exact ⟨among write listed, beq_iff_eq.mp within⟩
  · have follows := trails.follows place inside
    rw [ahead] at follows
    have kept : (batch.filter (keySlot ·.1.place.2 == slot)).map (·.1.seen source.databases) =
        (batch.map (·.1.seen source.databases)).filter (keySlot ·.key.2 == slot) := by
      rw [List.filter_map]
      simp only [Function.comp_def, key_seen]
    rw [List.map_append, kept]
    have here : (keySlot place.2 == slot) = true := beq_iff_eq.mpr inside
    exact Follows.filter (fun place : ℕ × Bytes => keySlot place.2 == slot) follows here

variable [EvictionPolicy F]

theorem Trails.next {write : WriteEvent × ℕ}
    (trails : Trails time slot start source aim store (write :: link) cursor)
    (recorded : Recorded source) (now : ℕ) :
    Trails time slot start source aim (applyScoped slot (tailFrame write) now store) link
      cursor := by
  obtain ⟨event, offset⟩ := write
  obtain ⟨among, within⟩ := trails.logged (event, offset) List.mem_cons_self
  obtain ⟨formed, fits⟩ := recorded.images event among
  have present : 0 < store.databases := trails.count ▸ recorded.present
  have logged : ∀ write ∈ link, write.1 ∈ heard source ∧ keySlot write.1.place.2 = slot :=
    fun write member => trails.logged write (List.mem_cons_of_mem _ member)
  cases event with
  | put db key entry =>
    obtain ⟨object, image, decoded, alike, kept, written⟩ :=
      insertObject_decoded present formed fits
    have applied : applyScoped slot (tailFrame (.put db key entry, offset)) now store =
        store.insertObject db object := by
      change applyScoped slot (.streamPut offset db key (encodeKvobj entry.toKvobj)) now store = _
      simp only [applyScoped, decoded]
      exact if_pos within
    rw [applied]
    refine ⟨kept.databases.trans trails.count, kept.passive.trans trails.active, logged,
      fun place inside => (trails.follows place inside).advance ?_⟩
    rw [readings_update written, Option.map_some, alike, ← trails.count]
    rfl
  | remove db key =>
    have moves : Moves Op.funnel store (store.delete db key now).2 :=
      moves_delete trivial key now
    have applied : applyScoped slot (tailFrame (.remove db key, offset)) now store =
        (store.delete db key now).2 := if_pos within
    rw [applied]
    refine ⟨moves.kept.databases.trans trails.count, moves.kept.passive.trans trails.active,
      logged, fun place inside => (trails.follows place inside).advance ?_⟩
    rw [readings_update (delete_active present trails.active), ← trails.count]
    rfl

end Tail

namespace Importer

variable {F : Type} [EvictionPolicy F] {slot : ℕ}

def load (slot : ℕ) (importer : Importer F) (frame : Frame) : Importer F :=
  importer.receive slot frame 0

variable {importer : Importer F}

theorem load_tailing (tailing : importer.phase = .tailing) (frames : List Frame) :
    (frames.foldl (load slot) importer).phase = .tailing := by
  induction frames generalizing importer with
  | nil => exact tailing
  | cons frame frames ih =>
    refine ih ?_
    obtain ⟨store, phase⟩ := importer
    cases tailing
    rfl

theorem receive_of_loads {store : ShardStore F} {frames : List Frame}
    (loads : frames.foldl (load slot) importer = ⟨store, .loading⟩) (frame : Frame) (now : ℕ) :
    importer.receive slot frame now = importer.load slot frame := by
  obtain ⟨held, phase⟩ := importer
  cases phase with
  | tailing =>
    have tailing := @load_tailing F _ slot ⟨held, .tailing⟩ rfl frames
    rw [loads] at tailing
    cases tailing
  | _ => cases frame <;> rfl

theorem load_loading (slot : ℕ) (store : ShardStore F) (db : ℕ) (key : Bytes)
    (decoded : decodeKvobj kvobjBytes = some object) :
    load slot ⟨store, .loading⟩ (.syncKv db key kvobjBytes) =
      ⟨store.insertObject db object, .loading⟩ := by
  unfold load receive
  dsimp only
  rw [decoded]

end Importer

private theorem copying_outside {E : Type} {source : ShardStore E} {start cut now : ℕ}
    {see : Option Reading → γ} {base aim copy : ℕ × Bytes → Option Reading} {passed : ℕ × Bytes → Prop}
    (copying : Copying see (unexpired now · = none) base aim source.readings copy
      (pending start source cut) passed) (present : 0 < source.databases) {place : ℕ × Bytes}
    (outside : ¬place.1 < source.databases) :
    Follows see copy (replay aim (pending start source cut)) (pending start source cut) place := by
  by_cases there : passed place
  · exact copying.behind place there
  have untouched : ∀ change ∈ pending start source cut, change.key ≠ place := by
    rintro change member rfl
    exact outside (pending_inside present member)
  have nothing : base place = none := by
    rw [← replay_of_untouched base untouched, ← copying.journalled, readings_outside outside]
  refine see_replay see fun _ => copying.ahead place there ?_
  rw [nothing]
  rfl

namespace Migration

variable {E F : Type} [EvictionPolicy F]

/-- How far the attempt has come, where the source was `base` when it was dialled and the importer
has to come to `aim` with the writes since on it: the connection is lost, the snapshot is loaded,
its end is on its way with some of the tail behind it, or the importer is in the tail. -/
inductive Stage (time slot start cut now : ℕ) (base aim : ℕ × Bytes → Option Reading)
    (state : Migration E F) : Prop
  | lost (lost : state.feed = none)
  | syncing {cursor : SnapshotCursor} {store : ShardStore F}
      (fed : state.feed = some (.syncing cut now cursor))
      (loads : state.frames.foldl (Importer.load slot) state.importer = ⟨store, .loading⟩)
      (count : store.databases = state.source.databases) (active : store.passive = false)
      (copying : Copying (unexpired time) (unexpired now · = none) base aim state.source.readings
        store.readings (pending start state.source cut)
        fun place => cursor.Passed place ∧ (keySlot place.2 == slot) = true)
  | ended {loads : List Frame} {link : List (WriteEvent × ℕ)} {cursor : ℕ} {store : ShardStore F}
      (fed : state.feed = some (.tailing cursor))
      (framed : state.frames = loads ++ .syncEnd cut :: link.map tailFrame)
      (loaded : loads.foldl (Importer.load slot) state.importer = ⟨store, .loading⟩)
      (trails : Trails time slot start state.source
        (replay aim (pending start state.source cut)) store link cursor)
  | tailing {link : List (WriteEvent × ℕ)} {cursor : ℕ}
      (fed : state.feed = some (.tailing cursor)) (tailing : state.importer.phase = .tailing)
      (framed : state.frames = link.map tailFrame) (trails : Trails time slot start state.source
        (replay aim (pending start state.source cut)) state.importer.store link cursor)

structure Attempt (time slot start cut now : ℕ) (origin : ShardStore F)
    (base aim : ℕ × Bytes → Option Reading) (state : Migration E F) : Prop where
  guarded : Guarded slot start origin state
  above : start ≤ cut
  below : cut ≤ start + (heard state.source).length
  journalled : state.source.readings = replay base (pending start state.source cut)
  stage : Stage time slot start cut now base aim state

variable {time slot start cut now : ℕ} {origin : ShardStore F}
  {base aim : ℕ × Bytes → Option Reading} {state : Migration E F} {replid : Bytes} [EvictionPolicy E]

section

variable (attempt : Attempt time slot start cut now origin base aim state)
include attempt

theorem Attempt.write {op : Op} (lawful : Lawful state (.write op))
    (observable : op.Observable state.source) :
    Attempt time slot start cut now origin base aim (state.step replid slot (.write op)) := by
  have written := attempt.guarded.recorded.write lawful.1 lawful.2.1 observable lawful.2.2
  have longer := written.pending attempt.below
  refine ⟨attempt.guarded.step lawful observable, attempt.above, ?_, ?_, ?_⟩
  · change cut ≤ start + (heard (op.step state.source)).length
    rw [written.heard, List.length_append]
    exact attempt.below.trans (by omega)
  · change (op.step state.source).readings = _
    rw [written.readings, attempt.journalled, ← replay_append]
    exact congrArg _ longer.symm
  · have onward : ∀ {store : ShardStore F} {link : List (WriteEvent × ℕ)} {cursor : ℕ},
        cursor ≤ start + (heard state.source).length → Trails time slot start state.source
          (replay aim (pending start state.source cut)) store link cursor →
        Trails time slot start (op.step state.source)
          (replay aim (pending start (op.step state.source) cut)) store link cursor := by
      intro store link cursor within trails
      rw [longer, replay_append]
      exact trails.extend written within
    cases attempt.stage with
    | lost lost => exact .lost lost
    | syncing fed loads count active copying =>
      refine .syncing fed loads (count.trans written.databases.symm) active ?_
      change Copying _ _ _ _ (op.step state.source).readings _ (pending start (op.step state.source) cut) _
      rw [longer, written.readings]
      exact copying.extend _
    | ended fed framed loaded trails =>
      exact .ended fed framed loaded (onward (attempt.guarded.fed _ fed).2 trails)
    | tailing fed tailing framed trails =>
      exact .tailing fed tailing framed (onward (attempt.guarded.fed _ fed).2 trails)

theorem Attempt.chunk (max : ℕ) :
    Stage time slot start cut now base aim (state.step replid slot (.chunk max)) := by
  unfold Migration.step
  dsimp only
  split
  · rename_i fed
    split
    · exact attempt.stage
    cases attempt.stage with
    | @syncing _ store feeds loads count active copying =>
      cases fed.symm.trans feeds
      have recorded := attempt.guarded.recorded
      obtain ⟨next, loaded, kept, -, further⟩ := copying_chunk (keySlot · == slot)
        recorded.formed recorded.fits count copying max
      refine .syncing rfl ?_ (kept.databases.trans count) (kept.passive.trans active) further
      rw [List.foldl_append, loads]
      exact foldl_syncFrames (Importer.mk · .loading)
        (fun store db key _ _ => Importer.load_loading slot store db key) loaded
    | lost feeds => cases fed.symm.trans feeds
    | ended feeds _ _ _ => cases fed.symm.trans feeds
    | tailing feeds _ _ _ => cases fed.symm.trans feeds
  · exact attempt.stage

theorem Attempt.finish : Stage time slot start cut now base aim (state.step replid slot .finish) := by
  unfold Migration.step
  dsimp only
  split
  · rename_i fed
    split
    · rename_i done
      cases attempt.stage with
      | @syncing _ store feeds loads count active copying =>
        cases fed.symm.trans feeds
        refine @Stage.ended _ _ _ _ _ _ _ _ _ _ _ _ [] _ _ rfl rfl loads ⟨count, active,
          fun _ member => absurd member List.not_mem_nil, fun place inside => ?_⟩
        by_cases within : place.1 < state.source.databases
        · exact copying.behind place ⟨passed_of_isDone done within, beq_iff_eq.mpr inside⟩
        · exact copying_outside copying attempt.guarded.recorded.present within
      | lost feeds => cases fed.symm.trans feeds
      | ended feeds _ _ _ => cases fed.symm.trans feeds
      | tailing feeds _ _ _ => cases fed.symm.trans feeds
    · exact attempt.stage
  · exact attempt.stage

theorem Attempt.drain (send : StreamOp → Bool) (max : ℕ) :
    Stage time slot start cut now base aim (state.step replid slot (.drain send max)) := by
  unfold Migration.step
  dsimp only
  split
  · rename_i cursor fed
    have above : start ≤ cursor := (attempt.guarded.fed _ fed).1
    obtain ⟨-, part, moved⟩ := attempt.guarded.spans.drain above send max
    cases passed : afterPass (drainAndShip send state.ring cursor max) with
    | none => exact .lost rfl
    | some feed =>
      obtain ⟨rfl, count, shipped⟩ := afterPass_eq_some passed
      have passed := congrArg (some ∘ Feed.tailing) (moved count shipped)
      cases attempt.stage with
      | @ended loads link _ store feeds framed loaded trails =>
        cases fed.symm.trans feeds
        obtain ⟨more, sent, further⟩ := trails.drain above part
        refine .ended passed ?_ loaded further
        rw [framed, sent, List.map_append, List.append_assoc]
        rfl
      | tailing feeds tailing framed trails =>
        cases fed.symm.trans feeds
        obtain ⟨more, sent, further⟩ := trails.drain above part
        refine .tailing passed tailing ?_ further
        rw [framed, sent, List.map_append]
      | lost feeds => cases fed.symm.trans feeds
      | syncing feeds _ _ _ _ => cases fed.symm.trans feeds
  · exact attempt.stage

theorem Attempt.deliver (clock : ℕ) :
    Stage time slot start cut now base aim (state.step replid slot (.deliver clock)) := by
  unfold Migration.step
  dsimp only
  split
  · exact attempt.stage
  rename_i frame frames sent
  cases attempt.stage with
  | lost lost => exact .lost lost
  | syncing fed loads count active copying =>
    have received := Importer.receive_of_loads loads frame clock
    refine .syncing fed ?_ count active copying
    rw [sent] at loads
    rw [received]
    exact loads
  | @ended loads link cursor store fed framed loaded trails =>
    have received := Importer.receive_of_loads loaded frame clock
    rw [sent] at framed
    cases loads with
    | nil =>
      obtain ⟨rfl, rfl⟩ := List.cons.inj framed
      have loading : state.importer = ⟨store, .loading⟩ := loaded
      have tailing : state.importer.receive slot (.syncEnd cut) clock = ⟨store, .tailing⟩ := by
        rw [received, loading]
        rfl
      refine .tailing fed ?_ rfl ?_
      · rw [tailing]
      · rw [tailing]
        exact trails
    | cons first loads =>
      obtain ⟨rfl, rfl⟩ := List.cons.inj framed
      refine .ended fed rfl ?_ trails
      rw [received]
      exact loaded
  | @tailing link cursor fed tailing framed trails =>
    rw [sent] at framed
    cases link with
    | nil => cases framed
    | cons write link =>
      obtain ⟨rfl, rfl⟩ := List.cons.inj framed
      have applied : state.importer.receive slot (tailFrame write) clock =
          ⟨applyScoped slot (tailFrame write) clock state.importer.store, .tailing⟩ := by
        unfold Importer.receive
        rw [tailing]
      refine .tailing fed ?_ rfl ?_
      · rw [applied]
      · rw [applied]
        exact trails.next attempt.guarded.recorded clock

theorem Attempt.step {action : Action} (lawful : Lawful state action)
    (observable : Observable state action) (goesOn : ∀ time, action ≠ .dial time) :
    Attempt time slot start cut now origin base aim (state.step replid slot action) := by
  have guarded : Guarded slot start origin (state.step replid slot action) :=
    attempt.guarded.step lawful observable
  have unwritten : (∀ op, action ≠ .write op) → (state.step replid slot action).source = state.source := by
    intro silent
    cases action with
    | write op => exact absurd rfl (silent op)
    | dial now => rfl
    | _ =>
      unfold Migration.step
      dsimp only
      repeat' split
      all_goals rfl
  have quiet : (∀ op, action ≠ .write op) →
      Stage time slot start cut now base aim (state.step replid slot action) →
        Attempt time slot start cut now origin base aim (state.step replid slot action) :=
    fun silent stage => ⟨guarded, attempt.above, (unwritten silent).symm ▸ attempt.below,
      (unwritten silent).symm ▸ attempt.journalled, stage⟩
  cases action with
  | write op => exact attempt.write lawful observable
  | dial time => exact absurd rfl (goesOn time)
  | chunk max => exact quiet (by simp) (attempt.chunk max)
  | finish => exact quiet (by simp) attempt.finish
  | drain send max => exact quiet (by simp) (attempt.drain send max)
  | deliver clock => exact quiet (by simp) (attempt.deliver clock)

theorem Attempt.run (lawful : Throughout replid slot Lawful state actions)
    (observable : Throughout replid slot Observable state actions) (goesOn : ∀ time, .dial time ∉ actions) :
    Attempt time slot start cut now origin base aim (state.run replid slot actions) := by
  induction actions generalizing state with
  | nil => exact attempt
  | cons action actions ih =>
    have next : Attempt time slot start cut now origin base aim (state.step replid slot action) :=
      attempt.step lawful.1 observable.1 fun time same =>
        goesOn time (same ▸ List.mem_cons_self)
    exact ih next lawful.2 observable.2 fun time member =>
      goesOn time (List.mem_cons_of_mem _ member)

end

/-- What an additive merge makes of what the importer has: the source's, where it has anything. -/
def merge (now : ℕ) (base origin : ℕ × Bytes → Option Reading) (place : ℕ × Bytes) :
    Option Reading :=
  if unexpired now (base place) = none then origin place else base place

theorem Guarded.dial (guarded : Guarded slot start origin state) (time now : ℕ) :
    Attempt time slot start state.ring.head now origin state.source.readings
      (merge now state.source.readings state.importer.store.readings)
      (state.step replid slot (.dial now)) := by
  have dialled : Guarded slot start origin (state.step replid slot (.dial now)) :=
    guarded.step trivial trivial
  have nothing : pending start state.source state.ring.head = [] := by
    rw [guarded.spans.head]
    exact pending_end
  refine ⟨dialled, ?_, guarded.spans.head.le, ?_, .syncing rfl rfl guarded.count guarded.active ?_⟩
  · rw [guarded.spans.head]
    exact Nat.le_add_right _ _
  · change state.source.readings = replay _ (pending start state.source _)
    rw [nothing, replay_nil]
  · change Copying _ _ _ _ state.source.readings _ (pending start state.source _) _
    rw [nothing]
    refine .start (fun place held => ?_) (fun place gone => ?_)
      fun place passed => SnapshotCursor.not_passed_start passed.1
    · rw [merge, if_neg held]
    · rw [merge, if_pos gone]
      rfl

theorem Guarded.run (guarded : Guarded slot start origin state)
    (lawful : Throughout replid slot Lawful state actions)
    (observable : Throughout replid slot Observable state actions) :
    Guarded slot start origin (state.run replid slot actions) := by
  induction actions generalizing state with
  | nil => exact guarded
  | cons action actions ih =>
    exact ih (guarded.step lawful.1 observable.1) lawful.2 observable.2

theorem throughout_append {property : Migration E F → Action → Prop}
    (holds : Throughout replid slot property state (before ++ after)) :
    Throughout replid slot property state before ∧
      Throughout replid slot property (state.run replid slot before) after := by
  induction before generalizing state with
  | nil => exact ⟨trivial, holds⟩
  | cons action before ih =>
    obtain ⟨first, second⟩ := ih holds.2
    exact ⟨⟨holds.1, first⟩, second⟩

/-- What is in place before the first attempt. -/
structure Ready (state : Migration E F) : Prop where
  recorded : Recorded state.source
  silent : heard state.source = []
  ring : ∃ cap start disk, state.ring = .withDisk cap start disk ∧ ∀ backlog ∈ disk, backlog.segments = []
  count : state.importer.store.databases = state.source.databases
  active : state.importer.store.passive = false
  feed : state.feed = none
  frames : state.frames = []

omit [EvictionPolicy E] [EvictionPolicy F] in
theorem Ready.guarded (ready : Ready state) (slot : ℕ) :
    ∃ start, Guarded slot start state.importer.store state := by
  obtain ⟨cap, start, disk, empty, segments⟩ := ready.ring
  refine ⟨start, ready.recorded, ?_, ready.count, ready.count, ready.active, ?_, ?_, fun _ _ => rfl⟩
  · rw [ready.silent, empty]
    exact ReplRing.spans_withDisk cap start segments
  · rw [ready.feed]
    simp
  · rw [ready.frames]
    simp

/-- Nothing is on the link, and the source has drained the tail up to the head of its ring. -/
def Delivered (state : Migration E F) : Prop :=
  state.frames = [] ∧ state.feed = some (.tailing state.ring.head)

/-- The importer shows a key that is not on the source. -/
def LeftOver (now time : ℕ) (state : Migration E F) (place : ℕ × Bytes) : Prop :=
  unexpired now (state.source.readings place) = none ∧
    unexpired time (state.importer.store.readings place) ≠ none

/-- The source has written the place since an earlier state. -/
def Rewritten (earlier later : ShardStore E) (place : ℕ × Bytes) : Prop :=
  ∃ event ∈ (heard later).drop (heard earlier).length, (event.seen later.databases).key = place

variable {place : ℕ × Bytes}

omit [EvictionPolicy E] in
theorem Attempt.delivered (attempt : Attempt time slot start cut now origin base aim state)
    (delivered : Delivered state) (inside : keySlot place.2 = slot) :
    unexpired time (state.importer.store.readings place) =
      unexpired time (replay aim (pending start state.source cut) place) := by
  obtain ⟨idle, fed⟩ := delivered
  cases attempt.stage with
  | @tailing link cursor feeds _ framed trails =>
    cases fed.symm.trans feeds
    have follows := trails.follows place inside
    rw [List.map_eq_nil_iff.mp (framed.symm.trans idle), attempt.guarded.spans.head, pending_end] at follows
    exact follows
  | ended _ framed _ _ =>
    rw [idle] at framed
    simp at framed
  | lost feeds => cases fed.symm.trans feeds
  | syncing feeds _ _ _ _ => cases fed.symm.trans feeds

/-- With the same writes on them, the merge looks like the source exactly where nothing was left
over or the source has written since. -/
private theorem replay_merge_iff (early : now ≤ time) {base origin : ℕ × Bytes → Option Reading}
    {changes : List (Change (ℕ × Bytes) Reading)} :
    unexpired time (replay (merge now base origin) changes place) =
        unexpired time (replay base changes place) ↔
      (unexpired now (base place) = none ∧ unexpired time (origin place) ≠ none →
        ∃ change ∈ changes, change.key = place) := by
  constructor
  · rintro alike ⟨gone, shown⟩
    by_contra untouched
    push Not at untouched
    rw [replay_of_untouched _ untouched, replay_of_untouched _ untouched, merge,
      if_pos gone, unexpired_eq_none early gone] at alike
    exact shown alike
  · intro rewritten
    refine see_replay (unexpired time) fun untouched => ?_
    unfold merge
    split
    · rename_i gone
      rw [unexpired_eq_none early gone]
      by_contra shown
      obtain ⟨change, member, same⟩ := rewritten ⟨gone, shown⟩
      exact untouched change member same
    · rfl

/-- However the attempts were cut off and the source was written, the import leaves the keys of the
other slots alone; and once the last attempt has delivered its snapshot and its tail, a key of the
slot is read alike on both sides exactly if it was not left over on the importer when that attempt
was dialled, or the source has written it since. -/
theorem imported_run {state : Migration E F} (ready : Ready state) (replid : Bytes) (slot : ℕ)
    {before after : List Action} {now : ℕ}
    (lawful : Throughout replid slot Lawful state (before ++ .dial now :: after))
    (observable : Throughout replid slot Observable state (before ++ .dial now :: after))
    (last : ∀ time, .dial time ∉ after) : (∀ place, keySlot place.2 ≠ slot →
      (state.run replid slot (before ++ .dial now :: after)).importer.store.contents place =
        state.importer.store.contents place) ∧
    (Delivered (state.run replid slot (before ++ .dial now :: after)) →
      ∀ db key time, now ≤ time → keySlot key = slot →
        ((state.run replid slot (before ++ .dial now :: after)).importer.store.peek db key time =
            (state.run replid slot (before ++ .dial now :: after)).source.peek db key time ↔
          (LeftOver now time (state.run replid slot before) (state.source.dbIndex db, key) →
            Rewritten (state.run replid slot before).source
              (state.run replid slot (before ++ .dial now :: after)).source
              (state.source.dbIndex db, key)))) := by
  obtain ⟨start, guarded⟩ := ready.guarded slot
  have whole := guarded.run lawful observable
  refine ⟨whole.others, fun delivered db key time early inside => ?_⟩
  obtain ⟨lawfulBefore, lawfulAfter⟩ := throughout_append lawful
  obtain ⟨observableBefore, observableAfter⟩ := throughout_append observable
  have dialled := guarded.run lawfulBefore observableBefore
  have split : state.run replid slot (before ++ .dial now :: after) =
      ((state.run replid slot before).step replid slot (.dial now)).run replid slot after :=
    List.foldl_append
  have begun : Attempt time slot start (state.run replid slot before).ring.head now
      state.importer.store (state.run replid slot before).source.readings
      (merge now (state.run replid slot before).source.readings
        (state.run replid slot before).importer.store.readings)
      ((state.run replid slot before).step replid slot (.dial now)) := dialled.dial time now
  have attempt := begun.run lawfulAfter.2 observableAfter.2 last
  rw [← split] at attempt
  generalize state.run replid slot before = earlier at *
  generalize state.run replid slot (before ++ .dial now :: after) = final at *
  have indices : final.source.dbIndex db = state.source.dbIndex db ∧
      final.importer.store.dbIndex db = state.source.dbIndex db := by
    have tables : final.source.databases = state.source.databases :=
      whole.tables.symm.trans ready.count
    exact ⟨congrArg (fun databases => min db (databases - 1)) tables,
      congrArg (fun databases => min db (databases - 1)) (whole.count.trans tables)⟩
  have since : Rewritten earlier.source final.source (state.source.dbIndex db, key) ↔
      ∃ change ∈ pending start final.source earlier.ring.head,
        change.key = (state.source.dbIndex db, key) := by
    unfold Rewritten pending
    simp only [dialled.spans.head, Nat.add_sub_cancel_left, List.mem_map, exists_exists_and_eq_and]
  rw [since]
  unfold peek
  rw [indices.1, indices.2]
  refine Iff.trans (Eq.congr ?_ ?_) (replay_merge_iff early)
  · exact attempt.delivered delivered inside
  · rw [attempt.journalled]
    rfl

def loneSource : Migration NullEviction NullEviction :=
  ⟨Op.watchedPair, .withDisk 8 0 none, none, [], ⟨.withHooks 2 {}, .idle⟩⟩

private theorem ready_loneSource : Ready loneSource := by
  have empty : ∀ place, Op.watchedPair.contents place = none :=
    contents_withHooks 2 (⟨⟩ : NullEviction)
  refine ⟨⟨by decide, ?_, ?_, rfl, ?_⟩, rfl, ⟨8, 0, none, rfl, fun _ none => by cases none⟩, rfl, rfl,
    rfl, rfl⟩
  · intro place entry stored
    cases (empty place).symm.trans stored
  · intro place entry stored
    cases (empty place).symm.trans stored
  · exact fun _ member => absurd member List.not_mem_nil

/-- A key of the source is imported by an attempt that is cut off in its tail. -/
def cutOff : List Action :=
  [.write (.upsert 0 [97] (.bytes [1]) .clear 3), .dial 4, .chunk 8, .finish, .deliver 4,
    .deliver 4, .deliver 4]

def inFull : List Action :=
  [.chunk 8, .finish, .drain (fun _ => true) 8, .deliver 6, .deliver 6, .deliver 6]

theorem imported_run_again : Delivered (loneSource.run [] (keySlot [97]) (cutOff ++ .dial 5 :: inFull)) ∧
      (loneSource.run [] (keySlot [97]) (cutOff ++ .dial 5 :: inFull)).importer.store.peek 0 [97] 7 =
        (loneSource.run [] (keySlot [97]) (cutOff ++ .dial 5 :: inFull)).source.peek 0 [97] 7 := by
  have short : FitsBytes [1] := by decide
  have lawful : Throughout [] (keySlot [97]) Lawful loneSource (cutOff ++ .dial 5 :: inFull) := by
    refine ⟨⟨trivial, (fun _ same => by cases same), fun event member => ?_⟩, ?_⟩
    · cases List.mem_singleton.mp member
      exact ⟨by decide, by decide, short⟩
    · repeat' constructor
  have observable : Throughout [] (keySlot [97]) Observable loneSource (cutOff ++ .dial 5 :: inFull) := by
    repeat' constructor
  have delivered : Delivered (loneSource.run [] (keySlot [97]) (cutOff ++ .dial 5 :: inFull)) := by
    unfold Delivered
    decide +kernel
  refine ⟨delivered, ((imported_run ready_loneSource [] (keySlot [97]) lawful observable
    (by simp [inFull])).2 delivered 0 [97] 7 (by decide) rfl).mpr fun left => ?_⟩
  exact absurd left.1 (by decide +kernel)

/-- The source deletes the key between the two attempts, and the importer still has it. -/
theorem not_imported_run_deleted : Throughout [] (keySlot [97]) Lawful loneSource
        (cutOff ++ .write (.delete 0 [97] 5) :: .dial 5 :: inFull) ∧
      Throughout [] (keySlot [97]) Observable loneSource
        (cutOff ++ .write (.delete 0 [97] 5) :: .dial 5 :: inFull) ∧
      Delivered (loneSource.run [] (keySlot [97])
        (cutOff ++ .write (.delete 0 [97] 5) :: .dial 5 :: inFull)) ∧
      (loneSource.run [] (keySlot [97]) (cutOff ++ .write (.delete 0 [97] 5) :: .dial 5 ::
        inFull)).importer.store.peek 0 [97] 7 = some ⟨.str .embStr [1], none⟩ ∧
      (loneSource.run [] (keySlot [97]) (cutOff ++ .write (.delete 0 [97] 5) :: .dial 5 ::
        inFull)).source.peek 0 [97] 7 = none := by
  have short : FitsBytes [1] := by decide
  refine ⟨⟨⟨trivial, (fun _ same => by cases same), fun event member => ?_⟩, ?_⟩, ?_, ?_,
    by decide +kernel, by decide +kernel⟩
  · cases List.mem_singleton.mp member
    exact ⟨by decide, by decide, short⟩
  · refine ⟨trivial, trivial, trivial, trivial, trivial, trivial,
      ⟨trivial, trivial, fun event member => ?_⟩, ?_⟩
    · cases List.mem_singleton.mp member
      trivial
    · repeat' constructor
  · repeat' constructor
  · unfold Delivered
    decide +kernel

end Migration

end IronCache.Repl
