import IronCache.Repl.Source

/-!
# What the ring ships is the log

As long as no resync is called for, a pass ships the log from its cursor on.
-/

namespace IronCache.Repl

open Store
open List
open DiskBacklog

/-- The log as the ring carries it, the first write right above `start`. -/
def numbered (start : ℕ) (log : List WriteEvent) : List StreamOp :=
  (log.zipIdx (start + 1)).map fun write => (observe write.1).at write.2

variable {start cursor : ℕ} {log : List WriteEvent}

theorem length_numbered (start : ℕ) (log : List WriteEvent) :
    (numbered start log).length = log.length := by simp [numbered]

theorem numbered_append :
    numbered start (log ++ more) = numbered start log ++ numbered (start + log.length) more := by
  unfold numbered
  rw [zipIdx_append, map_append]
  congr 3
  omega

variable {index : ℕ} {op : StreamOp} {ops : List StreamOp}

theorem offset_numbered (found : (numbered start log)[index]? = some op) : op.offset = start + index + 1 := by
  unfold numbered at found
  rw [getElem?_map, getElem?_zipIdx] at found
  obtain ⟨_, write, rfl⟩ := Option.map_eq_some_iff.mp found
  obtain ⟨event, -, rfl⟩ := Option.map_eq_some_iff.mp write
  rw [StreamOp.offset_at]
  omega

theorem offset_of_isPrefix (part : ops <+: (numbered start log).drop index) {place : ℕ}
    (found : ops[place]? = some op) : op.offset = start + (index + place) + 1 := by
  obtain ⟨rest, whole⟩ := part
  have inside : place < ops.length := (List.getElem?_eq_some_iff.mp found).1
  apply offset_numbered
  rw [← List.getElem?_drop, ← whole, List.getElem?_append_left inside, found]

theorem offset_head {rest : List StreamOp} (begins : op :: rest = (numbered start log).drop index) :
    op.offset = start + index + 1 := by
  have part : op :: rest <+: (numbered start log).drop index := by rw [begins]
  exact @offset_of_isPrefix _ _ _ op _ part 0 rfl

/-- What is not above the cursor comes first. -/
theorem filter_eq_drop (part : ops <+: (numbered start log).drop index) (below : start + index ≤ cursor) :
    ops.filter (cursor < ·.offset) = ops.drop (cursor - start - index) := by
  conv_lhs => rw [← take_append_drop (cursor - start - index) ops]
  rw [filter_append, filter_eq_nil_iff.mpr, filter_eq_self.mpr, nil_append]
  · intro op member
    obtain ⟨place, found⟩ := mem_iff_getElem?.mp member
    rw [List.getElem?_drop] at found
    have := offset_of_isPrefix part found
    exact decide_eq_true (by omega)
  · intro op member
    obtain ⟨place, found⟩ := mem_iff_getElem?.mp member
    rw [getElem?_take] at found
    split at found
    · have := offset_of_isPrefix part found
      simpa using (by omega : op.offset ≤ cursor)
    · cases found

/-- Operations that continue the log from a cursor end as far above it as there are of them. -/
theorem offset_getLast {last : StreamOp} (part : ops <+: (numbered start log).drop (cursor - start))
    (above : start ≤ cursor) (ends : ops.getLast? = some last) : last.offset = cursor + ops.length := by
  obtain ⟨rest, split⟩ := part
  rw [getLast?_eq_getElem?] at ends
  have inside : ops.length - 1 < ops.length := (List.getElem?_eq_some_iff.mp ends).1
  have found : (numbered start log)[cursor - start + (ops.length - 1)]? = some last := by
    rw [← List.getElem?_drop, ← split, List.getElem?_append_left inside, ends]
  have := offset_numbered found
  omega

/-- A run of the log has no hole. -/
private theorem gapFree_numbered (part : ops <+: (numbered start log).drop index) {expected : Option ℕ}
    (expects : ∀ offset ∈ expected, offset = start + index + 1) : gapFree expected ops = ops := by
  induction ops generalizing index expected with
  | nil => rfl
  | cons op ops ih =>
    have leads := @offset_of_isPrefix _ _ _ op _ part 0 rfl
    have rest : ops <+: (numbered start log).drop (index + 1) := by
      have shorter := part.drop 1
      rwa [drop_drop] at shorter
    have met : expected.all (op.offset == ·) = true := by
      cases expected with
      | none => rfl
      | some offset => exact beq_iff_eq.mpr (leads.trans (expects offset rfl).symm)
    unfold gapFree
    rw [if_pos met, ih rest]
    rintro offset ⟨⟩
    omega

theorem filter_between (above : start ≤ cursor) (max : ℕ) :
    (numbered start log).filter (fun op => op.offset ≤ cursor + max ∧ cursor < op.offset) =
      ((numbered start log).drop (cursor - start)).take max := by
  have later := @filter_eq_drop start cursor log 0 _ prefix_rfl above
  rw [drop_zero, Nat.sub_zero] at later
  simp only [Bool.decide_and]
  rw [← filter_filter, later]
  conv_lhs => rw [← take_append_drop max ((numbered start log).drop (cursor - start))]
  rw [filter_append, filter_eq_self.mpr, filter_eq_nil_iff.mpr, append_nil]
  · intro op member
    obtain ⟨place, found⟩ := mem_iff_getElem?.mp member
    rw [List.getElem?_drop, List.getElem?_drop] at found
    have := offset_numbered found
    simpa using (by omega : cursor + max < op.offset)
  · intro op member
    obtain ⟨place, found⟩ := mem_iff_getElem?.mp member
    rw [getElem?_take] at found
    split at found
    · rw [List.getElem?_drop] at found
      have := offset_numbered found
      exact decide_eq_true (by omega)
    · cases found

namespace ReplRing

def spilled (ring : ReplRing) : List StreamOp :=
  match ring.disk with
  | some disk => disk.segments.flatMap Segment.ops
  | none => []

/-- The ring holds the log from some point on, unless it calls for a resync. -/
structure Spans (start : ℕ) (log : List WriteEvent) (ring : ReplRing) : Prop where
  head : ring.head = start + log.length
  diskless : ring.disk = none → ring.spillStage = []
  tidy : ∀ disk ∈ ring.disk, ∀ segment ∈ disk.segments, DiskBacklog.Tidy segment
  run : ring.mustResync = false → ∃ index ≤ log.length,
    ring.spilled ++ (ring.spillStage ++ ring.ops) = (numbered start log).drop index

theorem spans_withDisk (cap start : ℕ) {disk : Option DiskBacklog}
    (blank : ∀ backlog ∈ disk, backlog.segments = []) : Spans start [] (withDisk cap start disk) where
  head := rfl
  diskless := fun _ => rfl
  tidy := fun backlog given segment member => by
    rw [blank backlog given] at member
    cases member
  run := fun _ => by
    refine ⟨0, le_rfl, ?_⟩
    cases disk with
    | none => rfl
    | some backlog =>
      unfold spilled withDisk
      dsimp only
      rw [blank backlog rfl]
      rfl

variable {ring : ReplRing}

/-- An eviction moves the oldest retained operation to the stage, or calls for a resync. -/
private theorem evict_spec :
    ring.evict.disk = ring.disk ∧ (ring.disk = none → ring.evict.spillStage = ring.spillStage) ∧
      (ring.evict.mustResync = false → ring.mustResync = false ∧
        ring.evict.spillStage ++ ring.evict.ops = ring.spillStage ++ ring.ops) := by
  unfold evict
  split
  · split
    · rename_i disk installed
      unfold stage
      dsimp only
      split
      · exact ⟨rfl, fun none => (by rw [installed] at none; cases none), fun calm => by cases calm⟩
      · refine ⟨rfl, fun none => (by rw [installed] at none; cases none), fun calm => ⟨calm, ?_⟩⟩
        cases ring.ops <;> simp
    · exact ⟨rfl, fun _ => rfl, fun calm => by cases calm⟩
  · exact ⟨rfl, fun _ => rfl, fun calm => ⟨calm, rfl⟩⟩

theorem Spans.push (spans : ring.Spans start log) (event : WriteEvent) :
    (ring.push (observe event)).Spans start (log ++ [event]) := by
  obtain ⟨disk, unstaged, run⟩ := evict_spec
  have same : (ring.push (observe event)).disk = ring.disk := disk
  refine ⟨?_, fun none => ?_, ?_, fun calm => ?_⟩
  · rw [head_push, spans.head, length_append]
    rfl
  · rw [same] at none
    exact (unstaged none).trans (spans.diskless none)
  · rw [same]
    exact spans.tidy
  · obtain ⟨before, moved⟩ := run calm
    obtain ⟨index, within, whole⟩ := spans.run before
    have kept : (ring.push (observe event)).spilled = ring.spilled := by
      unfold spilled
      rw [same]
    have longer : (ring.push (observe event)).spillStage ++ (ring.push (observe event)).ops =
        ring.spillStage ++ ring.ops ++ [(observe event).at (ring.head + 1)] := by
      rw [← moved, append_assoc]
      rfl
    have fresh : numbered start (log ++ [event]) =
        numbered start log ++ [(observe event).at (ring.head + 1)] := by
      rw [numbered_append, spans.head]
      rfl
    refine ⟨index, ?_, ?_⟩
    · rw [length_append]
      omega
    · rw [kept, longer, fresh, drop_append_of_le_length (by rwa [length_numbered]), ← whole]
      simp only [append_assoc]

theorem Spans.pushAll (spans : ring.Spans start log) (events : List WriteEvent) :
    (ring.pushAll events).Spans start (log ++ events) := by
  induction events generalizing log ring with
  | nil =>
    rw [append_nil]
    exact spans
  | cons event events ih =>
    have rest := ih (spans.push event)
    rwa [append_assoc] at rest

theorem Spans.flushSpill (spans : ring.Spans start log) :
    ring.flushSpill.Spans start log ∧ ring.flushSpill.spillStage = [] := by
  unfold ReplRing.flushSpill
  split
  · rename_i empty
    exact ⟨spans, empty⟩
  split
  · exact ⟨⟨spans.head, fun _ => rfl, spans.tidy, fun calm => by cases calm⟩, rfl⟩
  rename_i disk installed
  split
  · rename_i longer spilling
    obtain ⟨segment, tidy, written, kept⟩ := spill_spec spilling
    refine ⟨⟨spans.head, (fun none => by cases none), fun backlog given => ?_, fun calm => ?_⟩, rfl⟩
    · cases given
      intro other member
      rcases mem_append.mp (kept.subset member) with old | new
      · exact spans.tidy disk installed other old
      · cases mem_singleton.mp new
        exact tidy
    · obtain ⟨index, within, whole⟩ := spans.run calm
      obtain ⟨dropped, split⟩ := kept
      -- The spilled run has grown by what was staged and lost some segments in front.
      have grown : ring.spilled ++ ring.spillStage =
          dropped.flatMap Segment.ops ++ longer.segments.flatMap Segment.ops := by
        unfold spilled
        rw [installed]
        rw [← flatMap_append, split, flatMap_append, flatMap_singleton, written]
      have shorter : longer.segments.flatMap Segment.ops ++ ring.ops =
          (numbered start log).drop (index + (dropped.flatMap Segment.ops).length) := by
        rw [← drop_drop, ← whole, ← append_assoc, grown, append_assoc, drop_left]
      by_cases far : index + (dropped.flatMap Segment.ops).length ≤ log.length
      · exact ⟨_, far, shorter⟩
      refine ⟨log.length, le_rfl, ?_⟩
      rw [← length_numbered start log, drop_length]
      refine shorter.trans (drop_eq_nil_of_le ?_)
      rw [length_numbered]
      omega
  · exact ⟨⟨spans.head, fun _ => rfl, spans.tidy, fun calm => by cases calm⟩, rfl⟩

private theorem filter_segments {segments : List Segment}
    (tidy : ∀ segment ∈ segments, DiskBacklog.Tidy segment) :
    ((segments.filter (cursor < ·.last)).flatMap Segment.ops).filter (cursor < ·.offset) =
      (segments.flatMap Segment.ops).filter (cursor < ·.offset) := by
  induction segments with
  | nil => rfl
  | cons segment segments ih =>
    have rest := ih fun other member => tidy other (mem_cons_of_mem _ member)
    rw [flatMap_cons, filter_append, ← rest]
    by_cases above : cursor < segment.last
    · rw [filter_cons_of_pos (by simpa using above), flatMap_cons, filter_append]
    have below : segment.ops.filter (cursor < ·.offset) = [] := by
      rw [filter_eq_nil_iff]
      intro op member
      have := (tidy segment mem_cons_self).offset_le op member
      simpa using (by omega : op.offset ≤ cursor)
    rw [filter_cons_of_neg (by simpa using above), below, nil_append]

private theorem opsAfter_eq (retained : ring.ops = (numbered start log).drop index)
    (reached : start + index ≤ cursor) (max : ℕ) :
    ring.opsAfter cursor max = ((numbered start log).drop (cursor - start)).take max := by
  have part : ring.ops <+: (numbered start log).drop index := retained ▸ prefix_rfl
  unfold opsAfter
  rw [filter_eq_drop part reached, retained, drop_drop,
    show index + (cursor - start - index) = cursor - start by omega]

private theorem disk_opsAfter_eq {disk : DiskBacklog}
    (tidy : ∀ segment ∈ disk.segments, DiskBacklog.Tidy segment)
    (part : disk.segments.flatMap Segment.ops <+: (numbered start log).drop index)
    (reached : start + index ≤ cursor) (max : ℕ) : disk.opsAfter cursor max =
      ((disk.segments.flatMap Segment.ops).drop (cursor - start - index)).take max := by
  unfold DiskBacklog.opsAfter
  dsimp only
  rw [filter_segments tidy, filter_eq_drop part reached]
  have later := part.drop (cursor - start - index)
  rw [drop_drop] at later
  exact gapFree_numbered ((List.take_prefix max _).trans later) fun _ none => by cases none

/-- The first operation that the ring holds is the oldest it can recover. -/
theorem Spans.oldestRecoverable_eq (spans : ring.Spans start log) (unstaged : ring.spillStage = []) :
    ring.oldestRecoverable =
      ((ring.spilled ++ ring.ops).head?.map StreamOp.offset).getD ring.head := by
  unfold ReplRing.oldestRecoverable spilled
  rw [unstaged]
  cases installed : ring.disk with
  | none => rfl
  | some disk =>
    unfold oldestOffset
    dsimp only [Option.bind_some]
    cases listed : disk.segments with
    | nil => rfl
    | cons segment segments =>
      have member : segment ∈ disk.segments := listed ▸ mem_cons_self
      obtain ⟨op, begins, same⟩ := Option.map_eq_some_iff.mp (spans.tidy disk installed segment member).first
      obtain ⟨rest, ops⟩ := head?_eq_some_iff.mp begins
      rw [flatMap_cons, ops]
      exact same.symm

/-- The ring reaches back to every cursor it can serve. A ring that retains nothing takes the last
write for retained, so that one cursor is left out. -/
theorem Spans.reaches (spans : ring.Spans start log) (unstaged : ring.spillStage = [])
    (whole : ring.spilled ++ ring.ops = (numbered start log).drop index)
    (serves : ring.canServeFrom cursor = true) (behind : cursor < ring.head)
    (kept : ring.ops = [] → cursor + 1 ≠ ring.head) : start + index ≤ cursor := by
  simp only [canServeFrom, Bool.or_eq_true, decide_eq_true_eq] at serves
  have oldest := serves.resolve_left (by omega)
  rw [spans.oldestRecoverable_eq unstaged] at oldest
  cases listed : ring.spilled ++ ring.ops with
  | nil =>
    have := kept (append_eq_nil_iff.mp listed).2
    rw [listed] at oldest
    change ring.head ≤ _ at oldest
    omega
  | cons lowest later =>
    rw [listed] at oldest whole
    have := offset_head whole
    change lowest.offset ≤ _ at oldest
    omega

/-- Nothing is answered next to the head once nothing is retained. -/
theorem recoverOpsAfter_of_nil (empty : ring.ops = []) (reached : ring.head ≤ cursor + 1) (max : ℕ) :
    ring.recoverOpsAfter cursor max = [] := by
  have none (count : ℕ) : ring.opsAfter cursor count = [] := by
    unfold opsAfter
    rw [empty, filter_nil, take_nil]
  unfold recoverOpsAfter recoverFrom
  split
  · rfl
  split
  · exact none max
  unfold oldestRetained
  rw [empty]
  exact (if_pos reached).trans (none max)

/-- What is recovered above a cursor that can be served is the log from there on. -/
theorem Spans.recoverOpsAfter_eq (spans : ring.Spans start log) (unstaged : ring.spillStage = [])
    (calm : ring.mustResync = false) (serves : ring.canServeFrom cursor = true)
    (kept : ring.ops = [] → cursor + 1 ≠ ring.head) (max : ℕ) : ring.recoverOpsAfter cursor max =
      (numbered start log).filter fun op => op.offset ≤ cursor + max ∧ cursor < op.offset := by
  obtain ⟨index, inside, whole⟩ := spans.run calm
  have head := spans.head
  rw [unstaged, nil_append] at whole
  have retained : ring.ops = (numbered start log).drop (index + ring.spilled.length) := by
    rw [← drop_drop, ← whole, drop_left]
  have counted := congrArg List.length whole
  rw [length_append, length_drop, length_numbered] at counted
  -- What is retained begins right above what is spilled.
  have leads : ring.oldestRetained = start + (index + ring.spilled.length) + 1 ∨
      ring.ops = [] ∧ ring.oldestRetained = ring.head := by
    unfold oldestRetained
    cases listed : ring.ops with
    | nil => exact .inr ⟨rfl, rfl⟩
    | cons first rest => exact .inl (offset_head (listed ▸ retained))
  have below : cursor < ring.head → start + index ≤ cursor := fun behind =>
    spans.reaches unstaged whole serves behind kept
  rw [filter_between (by omega)]
  unfold ReplRing.recoverOpsAfter recoverFrom
  split
  · rename_i zero
    rw [zero, take_zero]
  split
  · rename_i diskless
    have nothing : ring.spilled = [] := by
      unfold ReplRing.spilled
      rw [diskless]
    rw [nothing] at retained
    exact opsAfter_eq retained (by simp only [length_nil]; omega) max
  rename_i disk installed
  dsimp only
  split
  · refine opsAfter_eq retained ?_ max
    rcases leads with first | ⟨empty, last⟩
    · omega
    have := kept empty
    rw [empty, length_nil] at counted
    omega
  rename_i short
  have spilled : ring.spilled = disk.segments.flatMap Segment.ops := by
    unfold ReplRing.spilled
    rw [installed]
  have part : ring.spilled <+: (numbered start log).drop index := ⟨_, whole⟩
  have reached := below (by omega)
  have onDisk := disk_opsAfter_eq (spans.tidy disk installed) (spilled ▸ part) reached max
  have continued : ring.spilled.drop (cursor - start - index) ++ ring.ops =
      (numbered start log).drop (cursor - start) := by
    rw [← drop_append_of_le_length, whole, drop_drop,
      show index + (cursor - start - index) = cursor - start by omega]
    rcases leads with first | ⟨empty, last⟩
    · omega
    · rw [empty, length_nil] at counted
      omega
  rw [onDisk, ← spilled, ← continued, take_append, length_take]
  rcases leads with first | ⟨empty, -⟩
  · -- Memory goes on where the disk ends, unless the disk has given all that was asked for.
    have memory (count : ℕ) : ring.opsAfter (ring.oldestRetained - 1) count =
        ring.ops.take count := by
      rw [opsAfter_eq retained (by omega),
        show ring.oldestRetained - 1 - start = index + ring.spilled.length by omega, ← retained]
    have length := length_drop (i := cursor - start - index) (l := ring.spilled)
    rw [memory]
    split
    · congr 2
      omega
    rename_i apart
    have long : max ≤ (ring.spilled.drop (cursor - start - index)).length := by
      by_contra less
      refine apart ?_
      rw [take_of_length_le (by omega), Bool.and_eq_true, Option.any_eq_true]
      have some : ring.spilled.drop (cursor - start - index) ≠ [] :=
        ne_nil_of_length_pos (by omega)
      have ends := getLast?_eq_some_getLast some
      have last := offset_getLast ⟨_, continued⟩ (by omega) ends
      exact ⟨⟨_, ends, beq_iff_eq.mpr (by omega)⟩, decide_eq_true (by omega)⟩
    rw [Nat.sub_eq_zero_of_le long, take_zero, append_nil]
  · unfold opsAfter
    rw [empty, filter_nil, take_nil, take_nil, append_nil, ite_self]

/-- What is recovered above a cursor continues the log from there. -/
theorem Spans.recoverOpsAfter (spans : ring.Spans start log) (unstaged : ring.spillStage = [])
    (calm : ring.mustResync = false) (serves : ring.canServeFrom cursor = true)
    (above : start ≤ cursor) (max : ℕ) :
    ring.recoverOpsAfter cursor max <+: (numbered start log).drop (cursor - start) := by
  by_cases left : ring.ops = [] ∧ cursor + 1 = ring.head
  · rw [recoverOpsAfter_of_nil left.1 left.2.ge]
    exact nil_prefix
  rw [spans.recoverOpsAfter_eq unstaged calm serves (fun empty last => left ⟨empty, last⟩),
    filter_between above]
  exact take_prefix _ _

/-- A pass keeps what the ring spans and ships the log from its cursor on; one that ships its batch
moves the cursor as far. -/
theorem Spans.drain (spans : ring.Spans start log) (above : start ≤ cursor)
    (send : StreamOp → Bool) (max : ℕ) : (drainAndShip send ring cursor max).ring.Spans start log ∧
      (drainAndShip send ring cursor max).frames <+: (numbered start log).drop (cursor - start) ∧
      ∀ count, (drainAndShip send ring cursor max).outcome = .shipped count →
        (drainAndShip send ring cursor max).cursor =
          cursor + (drainAndShip send ring cursor max).frames.length := by
  have flushed : (if ring.disk.isSome then ring.flushSpill else ring).Spans start log ∧
      (if ring.disk.isSome then ring.flushSpill else ring).spillStage = [] := by
    split
    · exact spans.flushSpill
    · rename_i diskless
      exact ⟨spans, spans.diskless (Option.not_isSome_iff_eq_none.mp diskless)⟩
  unfold drainAndShip
  dsimp only
  generalize (if ring.disk.isSome then ring.flushSpill else ring) = ring at *
  split
  · exact ⟨flushed.1, nil_prefix, fun _ shipped => by cases shipped⟩
  rename_i calm
  split
  · exact ⟨flushed.1, nil_prefix, fun _ shipped => by cases shipped⟩
  rename_i serves
  have part := flushed.1.recoverOpsAfter flushed.2 (Bool.eq_false_iff.mpr calm)
    (by simpa using serves) above max
  refine ⟨flushed.1, (List.takeWhile_prefix _).trans part, fun count shipped => ?_⟩
  split at shipped
  · rename_i whole
    rw [whole]
    cases ends : (ring.recoverOpsAfter cursor max).getLast? with
    | none =>
      rw [getLast?_eq_none_iff.mp ends]
      simp
    | some last =>
      rw [Option.map_some, Option.getD_some, offset_getLast part above ends]
      exact Nat.max_eq_left (Nat.le_add_right _ _)
  · cases shipped

def above (ring : ReplRing) (offset : ℕ) : List StreamOp :=
  (ring.spilled ++ (ring.spillStage ++ ring.ops)).filter (offset < ·.offset)

def KeepsLast (log : List WriteEvent) (ring : ReplRing) : Prop := log ≠ [] → ring.ops ≠ []

private theorem keepsLast_push (log : List WriteEvent) (ring : ReplRing) (op : StreamOp) :
    (ring.push op).KeepsLast log := by
  intro _
  exact append_ne_nil_of_right_ne_nil _ (cons_ne_nil _ _)

theorem KeepsLast.pushAll (keeps : ring.KeepsLast log) (events : List WriteEvent) :
    (ring.pushAll events).KeepsLast (log ++ events) := by
  induction events generalizing log ring with
  | nil =>
    rw [append_nil]
    exact keeps
  | cons event events ih =>
    have rest := ih (keepsLast_push (log ++ [event]) ring (observe event))
    rwa [append_assoc] at rest

theorem ops_flushSpill (ring : ReplRing) : ring.flushSpill.ops = ring.ops := by
  unfold flushSpill
  split
  · rfl
  split
  · rfl
  · split <;> rfl

/-- A ring that can serve from an offset holds the whole log above it. -/
theorem Spans.above (spans : ring.Spans start log) (keeps : ring.KeepsLast log)
    (unstaged : ring.spillStage = []) (calm : ring.mustResync = false) {offset : ℕ}
    (serves : ring.canServeFrom offset = true) (low : start ≤ offset) (within : offset ≤ ring.head) :
    ring.above offset = (numbered start log).drop (offset - start) := by
  obtain ⟨index, inside, whole⟩ := spans.run calm
  have part : ring.spilled ++ (ring.spillStage ++ ring.ops) <+: (numbered start log).drop index :=
    whole ▸ prefix_rfl
  have head := spans.head
  by_cases below : start + index ≤ offset
  · unfold ReplRing.above
    rw [filter_eq_drop part below, whole, drop_drop,
      show index + (offset - start - index) = offset - start by omega]
  -- Otherwise the log has writes above the offset, and the ring does not reach back to it.
  have written : log ≠ [] := by
    rintro rfl
    simp only [length_nil] at inside head
    omega
  obtain ⟨first, leads⟩ : ∃ first, (ring.spilled ++ (ring.spillStage ++ ring.ops)).head? = some first := by
    have full := keeps written
    cases listed : (ring.spilled ++ (ring.spillStage ++ ring.ops)).head? with
    | some first => exact ⟨first, rfl⟩
    | none =>
      simp only [head?_eq_none_iff, append_eq_nil_iff] at listed
      exact absurd listed.2.2 full
  have oldest : ring.oldestRecoverable = first.offset := by
    rw [unstaged, nil_append] at leads
    rw [spans.oldestRecoverable_eq unstaged, leads]
    rfl
  rw [head?_eq_getElem?] at leads
  have lowest := offset_of_isPrefix part leads
  simp only [canServeFrom, Bool.or_eq_true, decide_eq_true_eq] at serves
  have reached : start + log.length ≤ offset ∨ first.offset ≤ offset + 1 := by
    rwa [head, oldest] at serves
  rcases reached with caught | recoverable
  · omega
  · omega

end ReplRing

end IronCache.Repl
