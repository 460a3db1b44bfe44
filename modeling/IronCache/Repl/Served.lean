import IronCache.Lib.Guarded
import IronCache.Repl.SegmentFile
import IronCache.Repl.Spans
import Mathlib.Data.List.TakeWhile

/-!
# What the ring can serve

What the ring answers above a cursor, the spilled part read from its files, is the log from there on,
as long as no ack passes over staged operations and no rebase forgets a lost one.
-/

namespace IronCache.Repl

open Store
open List

theorem pairwise_numbered (start : ℕ) (log : List WriteEvent) :
    (numbered start log).Pairwise (·.offset < ·.offset) := by
  rw [pairwise_iff_getElem]
  intro earlier later inside within less
  have first := offset_numbered (getElem?_eq_getElem inside)
  have second := offset_numbered (getElem?_eq_getElem within)
  omega

variable {start cursor index : ℕ} {log : List WriteEvent} {op : StreamOp} {ops : List StreamOp}

private theorem mem_numbered (member : op ∈ numbered start log) :
    ∃ event ∈ log, ∃ offset ≤ start + log.length, op = (observe event).at offset := by
  obtain ⟨⟨event, offset⟩, listed, rfl⟩ := mem_map.mp member
  obtain ⟨-, within, same⟩ := mem_zipIdx listed
  exact ⟨event, same ▸ getElem_mem _, offset, by omega, rfl⟩

theorem suffix_append {part whole : List StreamOp} (ends : part <:+ whole) (more : List StreamOp) :
    part ++ more <:+ whole ++ more := by
  obtain ⟨front, rfl⟩ := ends
  exact ⟨front, by rw [append_assoc]⟩

namespace DiskBacklog

private theorem dropThrough_eq_nil {segments : List Segment} (below : ∀ segment ∈ segments, segment.last ≤ cut)
    (totalBytes : ℕ) : (dropThrough cut segments totalBytes).1 = [] := by
  induction segments generalizing totalBytes with
  | nil => rfl
  | cons oldest rest ih =>
    unfold dropThrough
    rw [if_pos (below oldest mem_cons_self)]
    exact ih (fun segment member => below segment (mem_cons_of_mem _ member)) _

end DiskBacklog

namespace ReplRing

/-- No spilled operation lies above a cut. -/
def SpilledBelow (ring : ReplRing) (cut : ℕ) : Prop :=
  ∀ disk ∈ ring.disk, ∀ segment ∈ disk.segments, segment.last ≤ cut

/-- The ring spans the log and may be trimmed: whatever was lost, the staged and retained operations
end the log. -/
structure Served (start : ℕ) (log : List WriteEvent) (ring : ReplRing) : Prop
    extends Spans start log ring where
  recent : ring.spillStage ++ ring.ops <:+ numbered start log

variable {ring : ReplRing}

private theorem served_withDisk (cap start : ℕ) {disk : Option DiskBacklog}
    (blank : ∀ backlog ∈ disk, backlog.segments = []) : Served start [] (withDisk cap start disk) where
  toSpans := spans_withDisk cap start blank
  recent := suffix_rfl

private theorem evict_suffix (diskless : ring.disk = none → ring.spillStage = []) :
    ring.evict.spillStage ++ ring.evict.ops <:+ ring.spillStage ++ ring.ops := by
  unfold evict
  split
  · split
    · unfold stage
      dsimp only
      have moved : ring.spillStage ++ ring.ops.head?.toList ++ ring.ops.tail =
          ring.spillStage ++ ring.ops := by
        cases ring.ops <;> simp
      split
      · rw [← moved]
        exact suffix_append (tail_suffix _) _
      · exact moved ▸ suffix_rfl
    · rename_i none
      dsimp only
      rw [diskless none]
      exact tail_suffix _
  · exact suffix_rfl

theorem Served.push (served : ring.Served start log) (event : WriteEvent) :
    (ring.push (observe event)).Served start (log ++ [event]) where
  toSpans := served.toSpans.push event
  recent := by
    have fresh : numbered start (log ++ [event]) =
        numbered start log ++ [(observe event).at (ring.head + 1)] := by
      rw [numbered_append, served.head]
      rfl
    have shorter := suffix_append ((@evict_suffix { ring with head := ring.head + 1 }
      served.diskless).trans served.recent) [(observe event).at (ring.head + 1)]
    rw [fresh]
    rwa [append_assoc] at shorter

theorem Served.flushSpill (served : ring.Served start log) : ring.flushSpill.Served start log where
  toSpans := served.toSpans.flushSpill.1
  recent := by
    rw [served.toSpans.flushSpill.2, ops_flushSpill]
    exact (List.suffix_append _ _).trans served.recent

private theorem mem_spilled {disk : DiskBacklog} {segment : Segment} (installed : disk ∈ ring.disk)
    (member : segment ∈ disk.segments) (inside : op ∈ segment.ops) : op ∈ ring.spilled := by
  unfold spilled
  rw [Option.mem_def.mp installed]
  exact mem_flatMap.mpr ⟨segment, member, inside⟩

/-- A ring that has lost nothing has spilled only what lies below the rest. -/
theorem Served.spilledBelow (served : ring.Served start log) (calm : ring.mustResync = false)
    {op : StreamOp} (later : op ∈ ring.spillStage ++ ring.ops) (below : op.offset ≤ cut) :
    ring.SpilledBelow cut := by
  obtain ⟨index, -, whole⟩ := served.run calm
  have ordered := (pairwise_numbered start log).drop (i := index)
  rw [← whole, pairwise_append] at ordered
  intro disk installed segment member
  obtain ⟨last, ends, same⟩ := Option.map_eq_some_iff.mp (served.tidy disk installed segment member).last
  have := ordered.2.2 last (mem_spilled installed member (mem_of_getLast? ends)) op later
  omega

/-- The files of a ring that has lost nothing are readable. -/
theorem Served.readable (served : ring.Served start log) (calm : ring.mustResync = false)
    (fits : ∀ event ∈ log, (observe event).Fits) (short : start + log.length < 256 ^ 8) :
    ∀ disk ∈ ring.disk, ∀ segment ∈ disk.segments, segment.Readable := by
  obtain ⟨index, -, whole⟩ := served.run calm
  intro disk installed segment member
  have spilled : ring.spilled.Sublist (numbered start log) :=
    (sublist_append_left _ _).trans (whole ▸ drop_sublist _ _)
  have inside : segment.ops.Sublist ring.spilled := by
    unfold ReplRing.spilled
    rw [Option.mem_def.mp installed]
    exact sublist_flatten_of_mem (mem_map_of_mem member)
  refine readSegment_encodeSegment (served.tidy disk installed segment member) (fun op within => ?_) ?_
  · obtain ⟨event, logged, offset, low, rfl⟩ := mem_numbered ((inside.trans spilled).subset within)
    rw [StreamOp.offset_at]
    exact ⟨(fits event logged).at offset, by omega⟩
  · have := (inside.trans spilled).length_le
    rw [length_numbered] at this
    omega

def trimmed (ring : ReplRing) (cut acked : ℕ) (stage ops : List StreamOp) (latch : Bool) : ReplRing :=
  { ring with
    acked
    ops
    spillStage := stage
    disk := ring.disk.map (·.pruneThrough cut)
    mustResync := latch }

section

variable {cut acked : ℕ} {stage ops : List StreamOp} {latch : Bool}

private theorem segments_trimmed {disk : DiskBacklog}
    (installed : disk ∈ (ring.trimmed cut acked stage ops latch).disk) :
    ∃ before ∈ ring.disk, disk.segments <:+ before.segments := by
  obtain ⟨before, given, rfl⟩ := Option.map_eq_some_iff.mp installed
  exact ⟨before, given, DiskBacklog.dropThrough_suffix⟩

private theorem spilled_trimmed : (ring.trimmed cut acked stage ops latch).spilled <:+ ring.spilled := by
  unfold spilled trimmed
  cases ring.disk with
  | none => exact suffix_rfl
  | some disk =>
    obtain ⟨front, whole⟩ := DiskBacklog.dropThrough_suffix
    have split := congrArg (List.flatMap Segment.ops) whole
    rw [flatMap_append] at split
    exact ⟨_, split⟩

private theorem spilled_trimmed_of_below (below : ring.SpilledBelow cut) :
    (ring.trimmed cut acked stage ops latch).spilled = [] := by
  unfold spilled trimmed
  cases installed : ring.disk with
  | none => rfl
  | some disk =>
    have gone := DiskBacklog.dropThrough_eq_nil (below disk installed) disk.totalBytes
    dsimp only [Option.map_some, DiskBacklog.pruneThrough]
    rw [gone]
    rfl

theorem Served.trim (served : ring.Served start log) (recent : stage ++ ops <:+ ring.spillStage ++ ring.ops)
    (unstaged : ring.spillStage = [] → stage = []) (kept : latch = false → ring.SpilledBelow cut ∨
      ring.mustResync = false ∧ stage ++ ops = ring.spillStage ++ ring.ops) :
    (ring.trimmed cut acked stage ops latch).Served start log := by
  refine ⟨⟨served.head, fun none => ?_, fun disk installed segment member => ?_, fun calm => ?_⟩,
    recent.trans served.recent⟩
  · exact unstaged (served.diskless (Option.map_eq_none_iff.mp none))
  · obtain ⟨before, given, shorter⟩ := segments_trimmed installed
    exact served.tidy before given segment (shorter.subset member)
  · have suffix : (ring.trimmed cut acked stage ops latch).spilled ++ (stage ++ ops) <:+
        numbered start log := by
      rcases kept calm with below | ⟨before, same⟩
      · rw [spilled_trimmed_of_below below]
        exact recent.trans served.recent
      obtain ⟨index, -, whole⟩ := served.run before
      rw [same]
      refine (suffix_append spilled_trimmed _).trans ?_
      rw [whole]
      exact drop_suffix _ _
    refine ⟨_, ?_, suffix_iff_eq_drop.mp suffix⟩
    rw [length_numbered]
    exact Nat.sub_le _ _

end

/-- Unless an operation lies at or below a cut, nothing goes. -/
theorem dropWhile_cut : ops.dropWhile (·.offset ≤ cut) = ops ∨ ∃ op ∈ ops, op.offset ≤ cut := by
  cases ops with
  | nil => exact .inl rfl
  | cons op ops =>
    by_cases below : op.offset ≤ cut
    · exact .inr ⟨op, mem_cons_self, below⟩
    · exact .inl (dropWhile_cons_of_neg (by simpa using below))

theorem Served.ack (served : ring.Served start log)
    (clear : ring.spillStage = [] ∨ max ring.acked offset < ring.oldestRetained) :
    (ring.ack offset).Served start log := by
  have either : ring.spillStage = [] ∨
      ring.ops.dropWhile (·.offset ≤ max ring.acked (min offset ring.head)) = ring.ops := by
    refine clear.imp_right fun above => ?_
    cases listed : ring.ops with
    | nil => rfl
    | cons op ops =>
      have first : ring.oldestRetained = op.offset := by
        unfold oldestRetained
        rw [listed]
        rfl
      refine dropWhile_cons_of_neg fun below => ?_
      have := of_decide_eq_true below
      omega
  refine served.trim ?_ ?_ fun calm => ?_
  · rcases either with none | same
    · rw [none]
      exact List.dropWhile_suffix _
    · rw [same]
  · exact fun none => none
  · rcases dropWhile_cut with
      same | ⟨op, retained, low⟩
    · exact .inr ⟨calm, by rw [same]⟩
    · exact .inl (served.spilledBelow calm (mem_append_right _ retained) low)

theorem Served.rebase (served : ring.Served start log)
    (known : ring.mustResync = false ∨ ring.SpilledBelow cut) : (ring.rebase cut).Served start log := by
  have apart : ring.spillStage.dropWhile (·.offset ≤ cut) ≠ [] →
      ring.ops.dropWhile (·.offset ≤ cut) = ring.ops := by
    intro left
    rcases dropWhile_cut with same | ⟨op, retained, below⟩
    · exact same
    have ordered := (pairwise_numbered start log).sublist served.recent.sublist
    rw [pairwise_append] at ordered
    refine absurd (dropWhile_eq_nil_iff.mpr fun staged member => ?_) left
    have := ordered.2.2 staged member op retained
    exact decide_eq_true (by omega)
  refine served.trim ?_ ?_ fun _ => ?_
  · by_cases left : ring.spillStage.dropWhile (·.offset ≤ cut) = []
    · rw [left]
      exact (List.dropWhile_suffix _).trans (List.suffix_append _ _)
    · rw [apart left]
      exact suffix_append (List.dropWhile_suffix _) _
  · intro none
    rw [none]
    rfl
  · rcases known with calm | below
    · rcases dropWhile_cut with same | ⟨op, staged, low⟩
      · rcases dropWhile_cut with also | ⟨op, retained, low⟩
        · exact .inr ⟨calm, by rw [same, also]⟩
        · exact .inl (served.spilledBelow calm (mem_append_right _ retained) low)
      · exact .inl (served.spilledBelow calm (mem_append_left _ staged) low)
    · exact .inl below

inductive RingEvent where
  | push (event : WriteEvent)
  | ack (offset : ℕ)
  | rebase (cut : ℕ)
  | flushSpill

def handle (ring : ReplRing) : RingEvent → ReplRing
  | .push event => ring.push (observe event)
  | .ack offset => ring.ack offset
  | .rebase cut => ring.rebase cut
  | .flushSpill => ring.flushSpill

def pushed (events : List RingEvent) : List WriteEvent :=
  events.filterMap fun
    | .push event => some event
    | _ => none

/-- An ack finds nothing staged or stays below what is retained, and a rebase that follows a loss
leaves nothing on disk. -/
def Careful (ring : ReplRing) : RingEvent → Prop
  | .ack offset => ring.spillStage = [] ∨ max ring.acked offset < ring.oldestRetained
  | .rebase cut => ring.mustResync = false ∨ ring.SpilledBelow cut
  | _ => True

/-- Right after a flush, a cursor that the ring says it can serve gets the writes above it. -/
def ServesFrom (start : ℕ) (log : List WriteEvent) (ring : ReplRing) (cursor : ℕ) : Prop :=
  ring.flushSpill.needsResync = false → ring.flushSpill.canServeFrom cursor = true →
    ∀ max, 1 ≤ max → ring.flushSpill.recoverFilesAfter cursor max =
      (numbered start log).filter fun op => op.offset ≤ cursor + max ∧ cursor < op.offset

theorem Served.handled (served : ring.Served start log) (event : RingEvent) (careful : ring.Careful event) :
    (ring.handle event).Served start (log ++ pushed [event]) := by
  cases event with
  | push event => exact served.push event
  | ack offset => exact (append_nil log).symm ▸ served.ack careful
  | rebase cut => exact (append_nil log).symm ▸ served.rebase careful
  | flushSpill => exact (append_nil log).symm ▸ served.flushSpill

theorem Served.handled_all (served : ring.Served start log)
    (careful : Guarded.Throughout handle Careful ring events) :
    (events.foldl handle ring).Served start (log ++ pushed events) := by
  induction events generalizing ring log with
  | nil => exact (append_nil log).symm ▸ served
  | cons event events ih =>
    have joined : pushed (event :: events) = pushed [event] ++ pushed events :=
      @List.filterMap_append _ _ [event] events _
    rw [joined, ← append_assoc]
    exact ih (served.handled event careful.1) careful.2

def removal : RingEvent := .push (.remove 0 [1])

/-- Three ways to lose a write that the ring still says it serves: the last write is acked, an ack
passes over a staged write, and a rebase forgets that writes above its cut were lost. -/
theorem not_serves :
    (¬ ServesFrom 0 (pushed [removal, .ack 1]) ([removal, .ack 1].foldl handle (new 4 0)) 0) ∧
    (¬ ServesFrom 0 (pushed [removal, removal, removal, .ack 2])
      ([removal, removal, removal, .ack 2].foldl handle (withDisk 2 0 (some { maxBytes := 1000 }))) 0) ∧
    ¬ ServesFrom 0 (pushed [removal, removal, .flushSpill, removal, removal, .flushSpill, .rebase 0])
      ([removal, removal, .flushSpill, removal, removal, .flushSpill, .rebase 0].foldl handle
        (withDisk 1 0 (some { maxBytes := 1000 }))) 1 := by
  refine ⟨fun serves => ?_, fun serves => ?_, fun serves => ?_⟩
  · exact absurd (serves (by decide) (by decide) 1 le_rfl) (by decide)
  · exact absurd (serves (by decide) (by decide) 3 (by decide)) (by decide +kernel)
  · exact absurd (serves (by decide) (by decide) 3 (by decide)) (by decide +kernel)

/-- In a careful run of writes that fit the records, the ring serves what it says, at every cursor but
the one below the last write once nothing is retained. -/
theorem serves_of_careful (cap start : ℕ) {disk : Option DiskBacklog}
    (blank : ∀ backlog ∈ disk, backlog.segments = []) {events : List RingEvent}
    (careful : Guarded.Throughout handle Careful (withDisk cap start disk) events)
    (fits : ∀ event ∈ pushed events, (observe event).Fits)
    (short : start + (pushed events).length < 256 ^ 8) {cursor : ℕ}
    (kept : (events.foldl handle (withDisk cap start disk)).ops = [] → pushed events ≠ [] →
      cursor + 1 ≠ (events.foldl handle (withDisk cap start disk)).head) :
    ServesFrom start (pushed events) (events.foldl handle (withDisk cap start disk)) cursor := by
  have served := (served_withDisk cap start blank).handled_all careful
  generalize events.foldl handle (withDisk cap start disk) = ring at *
  rw [nil_append] at served
  intro calm serves max _
  rw [recoverFilesAfter_eq (served.flushSpill.readable calm fits short)]
  by_cases left : ring.ops = [] ∧ cursor + 1 = ring.head
  · have none : pushed events = [] := by
      by_contra written
      exact kept left.1 written left.2
    rw [recoverOpsAfter_of_nil (by rw [ops_flushSpill, left.1]) (by rw [head_flushSpill, left.2]), none]
    rfl
  · refine served.flushSpill.recoverOpsAfter_eq served.toSpans.flushSpill.2 calm serves ?_ max
    rw [ops_flushSpill, head_flushSpill]
    exact fun empty last => left ⟨empty, last⟩

/-- The third write is spilled and is read from its file. -/
def trimmedRun : List RingEvent :=
  [removal, removal, .push (.put 0 [2] ⟨[2], .str .embStr [7], some 9, 0⟩), removal, .flushSpill, .ack 1,
    removal, .rebase 2]

theorem serves_trimmedRun : ServesFrom 0 (pushed trimmedRun)
    (trimmedRun.foldl handle (withDisk 2 0 (some { maxBytes := 1000 }))) 2 :=
  @serves_of_careful 2 0 (some { maxBytes := 1000 }) (by rintro _ ⟨⟩; rfl) trimmedRun
    ⟨trivial, trivial, trivial, trivial, trivial, .inl (by decide), trivial, .inl (by decide),
      trivial⟩ (by decide) (by decide) 2 (by decide)

end ReplRing

end IronCache.Repl
