import IronCache.Raft.Simulation.Replication

/-!
# Snapshot transfer refines the history

A snapshot in flight describes a committed log, which a follower that installs it holds afterwards.
-/

namespace IronCache.Raft.Sim

open Consensus (Protocol Inv Extends Step Steps SameNode Rooted Adopts)
open List

variable {machine : StateMachine} {setup : Setup machine} {compacts : Prop}
  {before history after : History} {start : RaftNode machine} {owner : NodeId} {ctx ctx' : Ctx machine}

section

variable (sim : Sim setup compacts before start owner history ctx)
include sim

private theorem acceptSnapshot (follower : ctx.node.role = .follower)
    (elected : history.Elected (history.term owner)) (allowed : compacts)
    (adopts : Adopts (history.branch (history.term owner)) (history.log owner) log)
    (above : ctx.node.commitIndex < snapshot.lastIncludedIndex)
    (committed : Committed history (history.term owner) (log.take snapshot.lastIncludedIndex))
    (within : snapshot.lastIncludedIndex ≤ log.length)
    (saved : members setup.voters (log.take snapshot.lastIncludedIndex) = baseline)
    (node : ctx'.node = { ctx.node with
      storage := storage
      voters := (members setup.voters log).1
      learners := (members setup.voters log).2
      configBaseline := baseline
      sm := sm
      commitIndex := snapshot.lastIncludedIndex
      lastApplied := snapshot.lastIncludedIndex }) (view : Represents storage log)
    (currentTerm : storage.currentTerm = ctx.node.storage.currentTerm)
    (votedFor : storage.votedFor = ctx.node.storage.votedFor)
    (snapMeta : storage.snapMeta = some snapshot)
    (configBaseline : storage.configBaseline = some baseline)
    (bytes : ∀ image : Imaging setup, storage.snapData = image.bytes (log.take snapshot.lastIncludedIndex))
    (restored : ∀ image : Imaging setup, image.Holds sm (log.take snapshot.lastIncludedIndex))
    (sends : (ctx'.out.sends, ctx'.shipped) = (ctx.out.sends, ctx.shipped))
    (applied : ctx'.applied = ctx.applied) :
    sim.At (history.accept owner log) ctx' := by
  have step : Step (protocol setup.voters) owner history (history.accept owner log) :=
    .accept history log (sim.node.role.trans (by rw [follower]; rfl)) elected adopts
  have grows : Extends history (history.accept owner log) := .step sim.inv step
  have accepted : (history.accept owner log).log owner = log := by simp [Consensus.State.accept]
  have snapIndex := MemStorage.snapIndex_of_some snapMeta
  have positive := (view.snapshot snapshot snapMeta).1
  refine sim.advance (.single step) sim.numbered ?_ sends applied (absurd allowed)
    (by rw [node]; exact ⟨above.le, sim.node.appliedLe.trans above.le⟩) (absurd allowed)
  rw [node]
  exact { sim.node with
    term := currentTerm.trans sim.node.term
    vote := fun candidate own cast => votedFor.trans (sim.node.vote candidate own cast)
    log := accepted.symm ▸ view
    config := by rw [accepted]
    baseline := by
      rw [accepted]
      exact saved.symm.trans (congrArg (fun index => members setup.voters (log.take index)) snapIndex.symm)
    savedBaseline := fun _ => configBaseline
    noBaseline := fun zero => absurd (snapIndex.symm.trans zero) positive.ne'
    compacted := fun _ => allowed
    snapLe := snapIndex.le
    appliedLe := le_rfl
    commitLe := by rw [accepted]; exact within
    committed := by
      rw [accepted]
      exact committed.mono grows le_rfl
    tally := fun candidate => absurd (follower.symm.trans candidate) (by decide)
    matched := fun leader => absurd (follower.symm.trans leader) (by decide)
    next := fun leader => absurd (follower.symm.trans leader) (by decide)
    ownAck := fun leader => absurd (follower.symm.trans leader) (by decide)
    buffer := sim.node.buffer_mono grows
    state := fun image => by
      rw [accepted]
      exact restored image
    data := fun _ image => by
      rw [accepted]
      exact (bytes image).trans (congrArg (fun index => image.bytes (log.take index)) snapIndex.symm) }

omit sim in
/-- A log on a branch that another log does not contain contains what the two share. -/
private theorem adopts_of_missing (onBranch : taken <+: branch) (missing : ¬ taken <+: log) :
    Adopts branch log taken := by
  refine .inr ⟨onBranch, fun common inLog inBranch => ?_⟩
  rcases prefix_or_prefix_of_prefix inBranch onBranch with shorter | longer
  · exact shorter
  · exact absurd (longer.trans inLog) missing

/-- The storage an installation leaves: that of the follower's own log if it contains the
snapshot's, and that of the snapshot's log alone otherwise. -/
private theorem installed_view (onBranch : taken <+: history.branch (history.term owner))
    (above : ctx.node.storage.snapIndex < taken.length) (data : List UInt8) :
    ∃ log, Adopts (history.branch (history.term owner)) (history.log owner) log ∧ taken <+: log ∧
      Represents (((ctx.dropConflicting taken.length (lastTerm taken)).node.storage.saveSnapshot
        ⟨taken.length, lastTerm taken⟩ data).compactTo taken.length) log := by
  have rooted := (sim.inv.branchRooted _).shorten onBranch
  unfold Ctx.dropConflicting
  by_cases check : ctx.node.storage.termAt taken.length = lastTerm taken
  · obtain ⟨inLog, -⟩ := sim.agrees_of_termAt rooted check
    have view := sim.node.log.compact above inLog.length_le data
    rw [← prefix_iff_eq_take.mp inLog] at view
    rw [if_pos check]
    exact ⟨history.log owner, .inl rfl, inLog, view⟩
  rw [if_neg check]
  refine ⟨taken, adopts_of_missing onBranch fun inLog => check ?_, prefix_rfl, ?_⟩
  · rw [sim.node.log.termAt above.le inLog.length_le, ← prefix_iff_eq_take.mp inLog]
  · exact sim.node.log.install above data ((sim.numbered _).shorten onBranch)
      fun entry member => branch_term_pos sim.inv entry (onBranch.subset member)

/-- A follower of the leader that shipped it a snapshot installs and confirms it. -/
private theorem installAssembledSnapshot (follower : ctx.node.role = .follower)
    (elected : history.Elected (history.term owner)) (allowed : compacts)
    (describes : SnapshotOf setup.voters history (history.term owner) taken
      rx.lastIncludedIndex rx.lastIncludedTerm rx.voters rx.learners)
    (whole : ∀ image : Imaging setup, rx.data = image.bytes taken)
    (above : ctx.node.commitIndex < rx.lastIncludedIndex) :
    ∃ after, sim.At after (ctx.installAssembledSnapshot rx) ∧
      rx.lastIncludedIndex ≤ after.acks owner (history.term owner) := by
  obtain ⟨committed, length, -, term, saved⟩ := describes
  have onBranch := committed.on_branch sim.inv elected
  have higher : ctx.node.storage.snapIndex < taken.length :=
    length ▸ (sim.node.snapLe.trans sim.node.appliedLe).trans_lt above
  obtain ⟨log, adopts, inLog, view⟩ := sim.installed_view onBranch higher rx.data
  rw [length, term] at view
  have cut : log.take rx.lastIncludedIndex = taken :=
    length ▸ (prefix_iff_eq_take.mp inLog).symm
  have within : rx.lastIncludedIndex ≤ log.length := length ▸ inLog.length_le
  obtain ⟨storage, writes, dropped, currentTerm, votedFor⟩ :=
    ctx.dropConflicting_eq rx.lastIncludedIndex rx.lastIncludedTerm
  rw [dropped] at view
  obtain ⟨sameTerm, sameVote, snapMeta, snapData, -⟩ := MemStorage.compactTo_fields
    (storage.saveSnapshot ⟨rx.lastIncludedIndex, rx.lastIncludedTerm⟩ rx.data) rx.lastIncludedIndex
  have snapIndex := MemStorage.snapIndex_of_some snapMeta
  have view := view.saveConfigBaseline rx.voters rx.learners
  have node : (ctx.installAssembledSnapshot rx).node = { ctx.node with
      storage := ((storage.saveSnapshot ⟨rx.lastIncludedIndex, rx.lastIncludedTerm⟩
        rx.data).compactTo rx.lastIncludedIndex).saveConfigBaseline rx.voters rx.learners
      voters := (members setup.voters log).1
      learners := (members setup.voters log).2
      configBaseline := (rx.voters, rx.learners)
      sm := machine.restore ctx.node.sm rx.data
      commitIndex := rx.lastIncludedIndex
      lastApplied := rx.lastIncludedIndex } := by
    unfold Ctx.installAssembledSnapshot
    rw [dropped]
    have recomputed := recompute_eq (view : Represents { ctx.node with
      storage := ((storage.saveSnapshot ⟨rx.lastIncludedIndex, rx.lastIncludedTerm⟩
        rx.data).compactTo rx.lastIncludedIndex).saveConfigBaseline rx.voters rx.learners
      configBaseline := (rx.voters, rx.learners)
      sm := machine.restore ctx.node.sm rx.data }.storage log)
      (saved.symm.trans (congrArg (members setup.voters) (cut.symm.trans
        (congrArg (List.take · log) snapIndex.symm))))
    exact congrArg (fun node : RaftNode machine => { node with
      commitIndex := rx.lastIncludedIndex
      lastApplied := rx.lastIncludedIndex }) recomputed
  have accepted : sim.At (history.accept owner log) (ctx.installAssembledSnapshot rx) :=
    sim.acceptSnapshot follower elected allowed adopts above (cut.symm ▸ committed) within
      (cut.symm ▸ saved) node view (sameTerm.trans currentTerm) (sameVote.trans votedFor) snapMeta
      rfl (fun image => snapData.trans (cut.symm ▸ whole image))
      (fun image => by rw [cut, whole image]; exact image.restore _ _)
      (by rw [Ctx.installAssembledSnapshot, dropped]; rfl)
      (by rw [Ctx.installAssembledSnapshot, dropped]; rfl)
  have taken : (history.accept owner log).log owner = log := by simp [Consensus.State.accept]
  refine ⟨_, accepted.confirm (taken.symm ▸ within) (by rw [taken, cut]; exact onBranch), ?_⟩
  simp [Consensus.State.confirm, Consensus.State.accept]

omit sim in
/-- Snapshots of committed logs that end at one index are snapshots of one log. -/
theorem snapshotOf_unique (inv : Inv (protocol setup.voters) history)
    (first : SnapshotOf setup.voters history bound log index term voters learners)
    (second : SnapshotOf setup.voters history bound' log' index term' voters' learners') : log = log' := by
  rcases first.committed.comparable second.committed inv with shorter | longer
  · exact shorter.eq_of_length (first.length.trans second.length.symm)
  · exact (longer.eq_of_length (second.length.trans first.length.symm)).symm

omit sim in
/-- A chunk continues the part of the bytes that ends at its offset. -/
private theorem chunkOf_join (held : data <+: whole) (ends : data.length = offset)
    (chunk : ChunkOf whole offset more done) :
    data ++ more <+: whole ∧ (done = true → data ++ more = whole) := by
  obtain ⟨stop, ordered, rfl, last⟩ := chunk
  have joined : data ++ (whole.take stop).drop offset = whole.take stop := by
    have taken : data = (whole.take stop).take offset := by
      rw [take_take, min_eq_left ordered, ← ends]
      exact prefix_iff_eq_take.mp held
    nth_rewrite 1 [taken]
    exact take_append_drop offset _
  rw [joined]
  exact ⟨List.take_prefix _ _, fun done => take_of_length_le (last done)⟩

omit sim in
/-- The reassembly buffer holds the beginning of the snapshot its chunks belong to, and all of
it after the last chunk. -/
private theorem receiveChunk_holds (inv : Inv (protocol setup.voters) history)
    (buffered : ∀ rx, buffer = some rx → ∃ log, SnapshotOf setup.voters history bound log
      rx.lastIncludedIndex rx.lastIncludedTerm rx.voters rx.learners ∧
      ∀ image : Imaging setup, rx.data <+: image.bytes log)
    (arrived : SnapshotOf setup.voters history bound log chunk.lastIncludedIndex
      chunk.lastIncludedTerm chunk.voters chunk.learners)
    (part : ∀ image : Imaging setup, ChunkOf (image.bytes log) offset chunk.data done)
    (received : Ctx.receiveChunk buffer chunk offset = some rx) :
    SnapshotOf setup.voters history bound log rx.lastIncludedIndex rx.lastIncludedTerm rx.voters rx.learners ∧
      (∀ image : Imaging setup, rx.data <+: image.bytes log) ∧
      (done = true → ∀ image : Imaging setup, rx.data = image.bytes log) := by
  unfold Ctx.receiveChunk at received
  split_ifs at received with first
  · obtain rfl := Option.some.inj received
    have joined := fun image => chunkOf_join (List.nil_prefix) (first ▸ rfl) (part image)
    exact ⟨arrived, fun image => (joined image).1, fun last image => (joined image).2 last⟩
  cases buffer with
  | none => exact absurd received nofun
  | some held =>
    dsimp only at received
    split_ifs at received with continues
    obtain ⟨index, -, length⟩ := continues
    obtain rfl := Option.some.inj received
    obtain ⟨log', describes, begun⟩ := buffered held rfl
    obtain rfl : log' = log := snapshotOf_unique inv (index ▸ describes) arrived
    have joined := fun image => chunkOf_join (begun image) length.symm (part image)
    exact ⟨describes, fun image => (joined image).1, fun last image => (joined image).2 last⟩

theorem onInstallSnapshot (different : source ≠ owner) (genuine : Genuine setup compacts before source owner
      (.installSnapshot term leaderId chunk.lastIncludedIndex chunk.lastIncludedTerm offset
        chunk.data done chunk.voters chunk.learners)) (now : ℕ) :
    sim.Leads (ctx.onInstallSnapshot now term leaderId offset done chunk) := by
  obtain ⟨allowed, rfl, elected, log, describes, part⟩ := genuine
  obtain ⟨middle, observed⟩ := sim.observeTerm term
  have reached := ctx.observeTerm_currentTerm term
  unfold Ctx.onInstallSnapshot
  dsimp only
  generalize (ctx.observeTerm term).1 = seen at *
  by_cases stale : term < seen.node.storage.currentTerm
  · rw [if_pos stale]
    exact ⟨middle, observed.send different nofun⟩
  rw [if_neg stale]
  obtain ⟨later, followed⟩ := observed.followLeader now leaderId
  have role := seen.followLeader_role now leaderId
  have storage := seen.followLeader_storage now leaderId
  generalize seen.followLeader now leaderId = following at *
  have current : seen.node.storage.currentTerm = term := by omega
  have sameTerm : later.term owner = term := by rw [← followed.node.term, storage, current]
  have elected := sameTerm.symm ▸ followed.grows.elected elected
  cases received : Ctx.receiveChunk following.node.snapshotRx chunk offset with
  | none => exact ⟨later, followed.send different nofun⟩
  | some rx =>
    obtain ⟨assembled, begun, whole⟩ := receiveChunk_holds followed.inv
      (fun rx held => (followed.node.buffer rx held).2)
      (describes.mono followed.grows sameTerm.ge) part received
    dsimp only
    by_cases partly : ¬ done = true
    · rw [if_pos partly]
      have buffered : sim.At later { following with node.snapshotRx := some rx } :=
        followed.quiet { followed.node with
          buffer := fun held same => Option.some.inj same ▸ ⟨allowed, log, assembled, begun⟩ }
          rfl rfl rfl rfl rfl
      exact ⟨later, buffered.send different nofun⟩
    rw [if_neg partly]
    have emptied : sim.At later { following with node.snapshotRx := none } :=
      followed.quiet { followed.node with buffer := nofun } rfl rfl rfl rfl rfl
    by_cases known : rx.lastIncludedIndex ≤ following.node.commitIndex
    · rw [if_pos known]
      have onBranch := (take_prefix_take_left known).trans (followed.committed_on_branch elected)
      refine ⟨_, (emptied.confirm (known.trans followed.node.commitLe) onBranch).send different fun _ => ?_⟩
      rw [current, ← sameTerm]
      simp [Consensus.State.confirm]
    · rw [if_neg known]
      obtain ⟨after, installed, acked⟩ := emptied.installAssembledSnapshot role elected allowed
        assembled (whole (not_not.mp partly)) (not_le.mp known)
      refine ⟨after, installed.send different fun _ => ?_⟩
      rw [current, ← sameTerm]
      exact acked

theorem onInstallSnapshotResp (different : source ≠ owner)
    (genuine : Genuine setup compacts before source owner
      (.installSnapshotResp term installedIndex installed nextOffset)) :
    ∃ done, ctx.onInstallSnapshotResp source term installedIndex installed nextOffset = .ok done ∧ sim.Leads done := by
  unfold Ctx.onInstallSnapshotResp
  by_cases later : ctx.node.storage.currentTerm < term
  · rw [ctx.observeTerm_of_lt later]
    exact ⟨_, rfl, sim.observeTerm term⟩
  rw [ctx.observeTerm_of_le (not_lt.mp later)]
  dsimp only
  by_cases ignored : ctx.node.role ≠ .leader ∨ term ≠ ctx.node.storage.currentTerm
  · rw [if_pos ignored]
    exact ⟨ctx, rfl, history, sim⟩
  rw [if_neg ignored]
  push Not at ignored
  obtain ⟨leader, current⟩ := ignored
  have branch := sim.ownBranch leader
  by_cases partly : ¬ installed = true
  · split_ifs with sending
    · have moved : sim.At history
          { ctx with
            node.snapshotNextOffset := ctx.node.snapshotNextOffset.insert source nextOffset } :=
        sim.quiet { sim.node with } rfl rfl rfl rfl rfl
      exact ⟨_, rfl, history, moved.sendSnapshotChunkTo branch different _⟩
    · exact ⟨ctx, rfl, history, sim⟩
  rw [if_neg partly]
  have erased : sim.At history
      { ctx with node.snapshotNextOffset := ctx.node.snapshotNextOffset.erase source } :=
    sim.quiet { sim.node with } rfl rfl rfl rfl rfl
  have copied : installedIndex ≤ history.acks source (history.term owner) := by
    rw [← sim.node.term, ← current]
    exact (genuine (not_not.mp partly)).trans (sim.grows.acks _ _)
  obtain ⟨done, result, after, simDone, kept⟩ :=
    (erased.noteMatch leader different copied).maybeAdvanceCommit
  rw [result]
  exact ⟨_, rfl, after, simDone.sendAppendEntriesTo (kept branch) different⟩

end

end IronCache.Raft.Sim
