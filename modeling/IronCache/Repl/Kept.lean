import IronCache.Repl.Ring

/-!
# What a ring keeps

A property of every operation that the ring holds is one of all that it ships.
-/

namespace IronCache.Repl

open List

structure ReplRing.Keeps (property : StreamOp → Prop) (ring : ReplRing) : Prop where
  ops : ∀ op ∈ ring.ops, property op
  staged : ∀ op ∈ ring.spillStage, property op
  spilled : ∀ disk ∈ ring.disk, ∀ segment ∈ disk.segments, ∀ op ∈ segment.ops, property op

namespace DiskBacklog

variable {totalBytes : ℕ} {segments : List Segment} {segment : Segment} {ops : List StreamOp}
  {op : StreamOp} {disk : DiskBacklog}

theorem dropThrough_suffix : (dropThrough cut segments totalBytes).1 <:+ segments := by
  fun_induction dropThrough cut segments totalBytes with
  | case1 oldest rest totalBytes below ih =>
    exact ih.trans (suffix_cons oldest _)
  | case2 | case3 => exact suffix_rfl

private theorem evictToBound_suffix (maxBytes : ℕ) :
    (evictToBound maxBytes segments totalBytes).1 <:+ segments := by
  fun_induction evictToBound maxBytes segments totalBytes with
  | case1 oldest next rest totalBytes big ih =>
    exact ih.trans (suffix_cons oldest _)
  | case2 | case3 => exact suffix_rfl

private theorem gapFree_isPrefix (expected : Option ℕ) : gapFree expected ops <+: ops := by
  induction ops generalizing expected with
  | nil => exact prefix_rfl
  | cons op ops ih =>
    unfold gapFree
    split
    · exact (prefix_cons_inj op).mpr (ih (some (op.offset + 1)))
    · exact nil_prefix

private theorem offset_le_last (run : contiguous ops = true) (ends : ops.getLast? = some last) :
    ∀ op ∈ ops, op.offset ≤ last.offset := by
  fun_induction contiguous ops with
  | case1 op next rest ih =>
    rw [Bool.and_eq_true, beq_iff_eq] at run
    have later := ih run.2 (by rwa [getLast?_cons_cons] at ends)
    intro other member
    rcases mem_cons.mp member with rfl | member
    · have := later next mem_cons_self
      omega
    · exact later other member
  | case2 ops short =>
    intro op member
    cases ops with
    | nil => cases member
    | cons first rest =>
      cases rest with
      | nil =>
        cases mem_singleton.mp member
        cases ends
        exact le_rfl
      | cons next rest => exact absurd rfl (short first next rest)

/-- A segment is a run without a hole that begins and ends where it says. -/
structure Tidy (segment : Segment) : Prop where
  run : contiguous segment.ops = true
  first : segment.ops.head?.map StreamOp.offset = some segment.first
  last : segment.ops.getLast?.map StreamOp.offset = some segment.last

theorem Tidy.offset_le (tidy : Tidy segment) : ∀ op ∈ segment.ops, op.offset ≤ segment.last := by
  obtain ⟨last, ends, same⟩ := Option.map_eq_some_iff.mp tidy.last
  exact same ▸ offset_le_last tidy.run ends

/-- A spill appends a tidy segment, and may drop segments from the front. -/
theorem spill_spec {disk longer : DiskBacklog} (spilled : disk.spill ops = some longer) :
    ∃ segment, Tidy segment ∧ segment.ops = ops ∧ longer.segments <:+ disk.segments ++ [segment] := by
  unfold spill at spilled
  split at spilled
  · rename_i first last begins ends
    split at spilled
    · rename_i run
      cases spilled
      rw [Bool.and_eq_true] at run
      exact ⟨⟨first.offset, last.offset, ops, segmentLen ops⟩,
        ⟨run.2, congrArg (Option.map StreamOp.offset) begins, congrArg (Option.map StreamOp.offset) ends⟩,
        rfl, evictToBound_suffix _⟩
    · cases spilled
  · cases spilled

private theorem mem_of_mem_opsAfter {cursor max : ℕ} (kept : op ∈ disk.opsAfter cursor max) :
    ∃ segment ∈ disk.segments, op ∈ segment.ops := by
  have member := mem_of_mem_filter (mem_of_mem_take ((gapFree_isPrefix _).subset kept))
  obtain ⟨segment, pending, inside⟩ := mem_flatMap.mp member
  exact ⟨segment, mem_of_mem_filter pending, inside⟩

end DiskBacklog

namespace ReplRing

variable {property : StreamOp → Prop} {ring : ReplRing}

section

variable (keeps : Keeps property ring)
include keeps

theorem Keeps.imp {weaker : StreamOp → Prop} (implied : ∀ op, property op → weaker op) :
    Keeps weaker ring where
  ops := fun op member => implied op (keeps.ops op member)
  staged := fun op member => implied op (keeps.staged op member)
  spilled := fun disk given segment member op inside =>
    implied op (keeps.spilled disk given segment member op inside)

omit keeps in
theorem keeps_withDisk (cap start : ℕ) {disk : Option DiskBacklog}
    (blank : ∀ backlog ∈ disk, backlog.segments = []) : Keeps property (withDisk cap start disk) where
  ops := fun _ member => absurd member not_mem_nil
  staged := fun _ member => absurd member not_mem_nil
  spilled := fun backlog given segment member => by
    rw [blank backlog given] at member
    exact absurd member not_mem_nil

theorem Keeps.evict : Keeps property ring.evict := by
  have shorter : ∀ op ∈ ring.ops.tail, property op := fun op member =>
    keeps.ops op (mem_of_mem_tail member)
  unfold ReplRing.evict
  split
  · split
    · have staged : ∀ op ∈ ring.spillStage ++ ring.ops.head?.toList, property op := by
        intro op member
        rcases mem_append.mp member with old | evicted
        · exact keeps.staged op old
        · exact keeps.ops op (mem_of_mem_head? (Option.mem_toList.mp evicted))
      unfold stage
      dsimp only
      split
      · exact ⟨shorter, fun op member => staged op (mem_of_mem_tail member), keeps.spilled⟩
      · exact ⟨shorter, staged, keeps.spilled⟩
    · exact ⟨shorter, keeps.staged, keeps.spilled⟩
  · exact keeps

theorem Keeps.push (fresh : property (op.at (ring.head + 1))) : Keeps property (ring.push op) := by
  have raised : Keeps property { ring with head := ring.head + 1 } :=
    ⟨keeps.ops, keeps.staged, keeps.spilled⟩
  refine ⟨fun other member => ?_, raised.evict.staged, raised.evict.spilled⟩
  rcases mem_append.mp member with old | new
  · exact raised.evict.ops other old
  · cases mem_singleton.mp new
    exact fresh

theorem Keeps.flushSpill : Keeps property ring.flushSpill := by
  have emptied : ∀ op ∈ ([] : List StreamOp), property op := fun _ member =>
    absurd member not_mem_nil
  unfold ReplRing.flushSpill
  split
  · exact keeps
  split
  · exact ⟨keeps.ops, emptied, keeps.spilled⟩
  rename_i disk installed
  split
  · rename_i longer spilled
    refine ⟨keeps.ops, emptied, fun backlog given segment member op inside => ?_⟩
    cases given
    obtain ⟨fresh, -, written, kept⟩ := DiskBacklog.spill_spec spilled
    rcases mem_append.mp (kept.subset member) with old | new
    · exact keeps.spilled disk installed segment old op inside
    · cases mem_singleton.mp new
      exact keeps.staged op (written ▸ inside)
  · exact ⟨keeps.ops, emptied, keeps.spilled⟩

theorem Keeps.ack (offset : ℕ) : Keeps property (ring.ack offset) where
  ops := fun op member => keeps.ops op ((dropWhile_sublist _).subset member)
  staged := keeps.staged
  spilled := fun backlog given segment member => by
    obtain ⟨disk, installed, rfl⟩ := Option.map_eq_some_iff.mp given
    exact keeps.spilled disk installed segment (DiskBacklog.dropThrough_suffix.subset member)

variable {cursor : ℕ}

theorem Keeps.opsAfter {max : ℕ} : ∀ op ∈ ring.opsAfter cursor max, property op := fun op member =>
  keeps.ops op (mem_of_mem_filter (mem_of_mem_take member))

theorem Keeps.recoverOpsAfter {max : ℕ} : ∀ op ∈ ring.recoverOpsAfter cursor max, property op := by
  intro op member
  unfold ReplRing.recoverOpsAfter recoverFrom at member
  split at member
  · exact absurd member not_mem_nil
  split at member
  · exact keeps.opsAfter op member
  rename_i disk installed
  have spilled : ∀ op ∈ disk.opsAfter cursor max, property op := fun op member => by
    obtain ⟨segment, kept, inside⟩ := DiskBacklog.mem_of_mem_opsAfter member
    exact keeps.spilled disk installed segment kept op inside
  dsimp only at member
  split at member
  · exact keeps.opsAfter op member
  split at member
  · rcases mem_append.mp member with early | late
    · exact spilled op early
    · exact keeps.opsAfter op late
  · exact spilled op member

theorem Keeps.drain (send : StreamOp → Bool) (cursor max : ℕ) :
    Keeps property (drainAndShip send ring cursor max).ring ∧
      ∀ op ∈ (drainAndShip send ring cursor max).frames, property op := by
  have flushed : Keeps property (if ring.disk.isSome then ring.flushSpill else ring) := by
    split
    · exact keeps.flushSpill
    · exact keeps
  unfold drainAndShip
  dsimp only
  generalize (if ring.disk.isSome then ring.flushSpill else ring) = ring at *
  split
  · exact ⟨flushed, fun _ member => absurd member not_mem_nil⟩
  split
  · exact ⟨flushed, fun _ member => absurd member not_mem_nil⟩
  · exact ⟨flushed, fun op member =>
      flushed.recoverOpsAfter op ((takeWhile_sublist _).subset member)⟩

end

private theorem head_evict : ring.evict.head = ring.head := by
  unfold evict
  split
  · split
    · unfold stage
      dsimp only
      split <;> rfl
    · rfl
  · rfl

@[simp]
theorem head_push : (ring.push op).head = ring.head + 1 :=
  head_evict

theorem head_flushSpill (ring : ReplRing) : ring.flushSpill.head = ring.head := by
  unfold flushSpill
  split
  · rfl
  split
  · rfl
  · split <;> rfl

@[simp]
theorem head_drain (cursor max : ℕ) : (drainAndShip send ring cursor max).ring.head = ring.head := by
  have flushed : (if ring.disk.isSome then ring.flushSpill else ring).head = ring.head := by
    split
    · exact head_flushSpill ring
    · rfl
  unfold drainAndShip
  dsimp only
  rw [← flushed]
  generalize (if ring.disk.isSome then ring.flushSpill else ring) = current
  split
  · rfl
  · split <;> rfl

end ReplRing

end IronCache.Repl
