import IronCache.Raft.Refinement
import IronCache.Raft.Shape

/-!
# A step in progress refines the history

`Sim` relates a step in progress to the history it has produced so far.
-/

namespace IronCache.Raft

open Consensus (Protocol Inv Extends Step Steps SameNode)
open Finset

variable {machine : StateMachine}

/-- Some commitment has this entry at the entry's own index. -/
def Chosen (history : History) (entry : LogEntry) : Prop :=
  ∃ commit ∈ history.commits, commit.log[entry.index - 1]? = some entry

variable {history after : History}

theorem Chosen.mono (chosen : Chosen history entry) (grows : Extends history after) :
    Chosen after entry := by
  obtain ⟨commit, member, found⟩ := chosen
  exact ⟨commit, grows.commits member, found⟩

theorem Committed.chosen (committed : Committed history bound log)
    (found : log[position]? = some entry) (index : entry.index = position + 1) :
    Chosen history entry := by
  rcases committed with rfl | ⟨commit, member, -, tail, whole⟩
  · exact absurd found nofun
  refine ⟨commit, member, ?_⟩
  rw [index, Nat.add_sub_cancel, ← whole,
    List.getElem?_append_left (List.getElem?_eq_some_iff.mp found).1, found]

/-- The node leads, or has just stopped leading: its term has been won and its log lies on
the branch of that term. -/
structure OwnBranch (history : History) (owner : NodeId) : Prop where
  elected : history.Elected (history.term owner)
  log : history.log owner <+: history.branch (history.term owner)
  known : history.role owner ≠ .candidate

/-- A storage whose snapshot is that of a committed log of the given length and last term. -/
def Shipment (setup : Setup machine) (history : History) (storage : MemStorage)
    (snapshot : SnapshotMeta) : Prop :=
  ∃ bound log voters learners, SnapshotOf setup.voters history bound log
      snapshot.lastIncludedIndex snapshot.lastIncludedTerm voters learners ∧
    storage.snapMeta = some snapshot ∧ storage.configBaseline = some (voters, learners) ∧
    ∀ image : Imaging setup, storage.snapData = image.bytes log

theorem Shipment.mono (shipment : Shipment setup history storage snapshot)
    (grows : Extends history after) : Shipment setup after storage snapshot := by
  obtain ⟨bound, log, voters, learners, describes, rest⟩ := shipment
  exact ⟨bound, log, voters, learners, describes.mono grows le_rfl, rest⟩

/-- Entries with the indices right above a given one, in order. -/
def Ascends (base : ℕ) (entries : List LogEntry) : Prop :=
  ∀ position entry, entries[position]? = some entry → entry.index = base + position + 1

theorem Ascends.concat (ascends : Ascends base entries)
    (next : entry.index = base + entries.length + 1) : Ascends base (entries ++ [entry]) := by
  intro position other found
  rcases Nat.lt_or_ge position entries.length with inside | outside
  · rw [List.getElem?_append_left inside] at found
    exact ascends position other found
  rw [List.getElem?_append_right outside, List.getElem?_singleton] at found
  split_ifs at found with last
  obtain rfl := Option.some.inj found
  omega

/-- A crash in the middle of a step: what it leaves in storage and what the step had applied,
with the history they belong to. -/
structure Recovery (setup : Setup machine) (compacts : Prop) (before : History)
    (start : RaftNode machine) (owner : NodeId) (history : History) (storage : MemStorage)
    (applied : List LogEntry) : Prop where
  steps : Steps (protocol setup.voters) owner before history
  numbered : ∀ term, Indexed (history.branch term)
  persists : Persists setup compacts history owner storage
  chosen : ∀ entry ∈ applied, Chosen history entry
  ascends : Ascends start.lastApplied applied

/-- The writes of a step account for its storage, spare what was committed, and leave a state
to restart from wherever they are cut short. -/
structure Journal (setup : Setup machine) (compacts : Prop) (before : History)
    (start : RaftNode machine) (owner : NodeId) (storage : MemStorage) (writes : List Write) : Prop where
  logged : storage = start.storage.writeAll (writes.map (·.op))
  kept : ∀ write ∈ writes, ∀ index, write.op = .truncateFrom index → write.commitIndex < index
  recovers : ∀ count write, writes[count]? = some write → ∃ history,
    Recovery setup compacts before start owner history
      (start.storage.writeAll ((writes.take count).map (·.op))) write.applied

/-- A step in progress, the node and the history it started from and the history it has
reached. The step's journal and the order of what it applies matter without snapshots only. -/
structure Sim (setup : Setup machine) (compacts : Prop) (before : History) (start : RaftNode machine)
    (owner : NodeId) (history : History) (ctx : Ctx machine) : Prop where
  steps : Steps (protocol setup.voters) owner before history
  grows : Extends before history
  inv : Inv (protocol setup.voters) history
  numbered : ∀ term, Indexed (history.branch term)
  node : Explains setup compacts history owner ctx.node
  sends : ∀ dest msg, (dest, msg) ∈ ctx.out.sends →
    dest ≠ owner ∧ Genuine setup compacts history owner dest msg
  ships : ∀ dest msg, (dest, msg) ∈ ctx.out.sends → ∀ snapshot, msg.snapshot? = some snapshot →
    ∃ storage ∈ ctx.shipped, Shipment setup history storage snapshot
  applied : ∀ entry ∈ ctx.applied, Chosen history entry
  commits : start.commitIndex ≤ ctx.node.commitIndex
  applies : start.lastApplied ≤ ctx.node.lastApplied
  last : ¬ compacts → ctx.node.lastApplied = start.lastApplied + ctx.applied.length
  ascends : ¬ compacts → Ascends start.lastApplied ctx.applied
  journal : ¬ compacts → Journal setup compacts before start owner ctx.node.storage ctx.writes

theorem Journal.write {start : RaftNode machine} {before : History} {ctx : Ctx machine}
    (journal : Journal setup compacts before start owner ctx.node.storage ctx.writes)
    (recovery : Recovery setup compacts before start owner history ctx.node.storage ctx.applied)
    (spares : ∀ index, op = .truncateFrom index → ctx.node.commitIndex < index) :
    Journal setup compacts before start owner (ctx.write op).node.storage (ctx.write op).writes where
  logged := by
    unfold Ctx.write
    rw [List.map_append, MemStorage.writeAll_append, ← journal.logged]
    rfl
  kept := fun write member index truncates => by
    rcases List.mem_append.mp member with earlier | now
    · exact journal.kept write earlier index truncates
    · obtain rfl := List.mem_singleton.mp now
      exact spares index truncates
  recovers := fun count write found => by
    unfold Ctx.write at found ⊢
    rcases Nat.lt_or_ge count ctx.writes.length with inside | outside
    · rw [List.getElem?_append_left inside] at found
      rw [List.take_append_of_le_length inside.le]
      exact journal.recovers count write found
    rw [List.getElem?_append_right outside, List.getElem?_singleton] at found
    split_ifs at found with last
    obtain rfl := Option.some.inj found
    obtain rfl : count = ctx.writes.length := by omega
    rw [List.take_left' rfl, ← journal.logged]
    exact ⟨history, recovery⟩

namespace Sim

variable {setup : Setup machine} {compacts : Prop} {before history after : History}
  {start : RaftNode machine} {owner : NodeId} {ctx ctx' : Ctx machine}

/-- The run has come to a later history and context. -/
abbrev At (_ : Sim setup compacts before start owner history ctx) (later : History)
    (next : Ctx machine) : Prop := Sim setup compacts before start owner later next

/-- The run goes on to the context. -/
abbrev Leads (sim : Sim setup compacts before start owner history ctx) (next : Ctx machine) : Prop :=
  ∃ after, sim.At after next

/-- Without snapshots the context's storage is what its writes made of the storage at the start. -/
abbrev Logs (_ : Sim setup compacts before start owner history ctx) (next : Ctx machine) : Prop :=
  ¬ compacts → Journal setup compacts before start owner next.node.storage next.writes

section

variable (sim : Sim setup compacts before start owner history ctx)
include sim

theorem recovery (off : ¬ compacts) :
    Recovery setup compacts before start owner history ctx.node.storage ctx.applied :=
  ⟨sim.steps, sim.numbered, sim.node.persists, sim.applied, sim.ascends off⟩

theorem journalWrite (op : StorageOp)
    (spares : ∀ index, op = .truncateFrom index → ctx.node.commitIndex < index) : sim.Logs (ctx.write op) :=
  fun off => (sim.journal off).write (sim.recovery off) spares

private theorem recoveryBump (off : ¬ compacts) (later : ctx.node.storage.currentTerm < term) :
    Recovery setup compacts before start owner (history.bump owner term)
      (ctx.node.storage.setCurrentTerm term) ctx.applied :=
  { sim.recovery off with
    steps := sim.steps.tail (.bump history term (sim.node.term ▸ later))
    persists := sim.node.persists_bump sim.inv later }

theorem journalBump (later : ctx.node.storage.currentTerm < term) (vote : Option NodeId) :
    sim.Logs ((ctx.write (.setCurrentTerm term)).write (.setVotedFor vote)) := by
  intro off
  have first : Journal setup compacts before start owner
      (ctx.write (.setCurrentTerm term)).node.storage (ctx.write (.setCurrentTerm term)).writes :=
    sim.journalWrite _ (by nofun) off
  have recovery : Recovery setup compacts before start owner (history.bump owner term)
      (ctx.write (.setCurrentTerm term)).node.storage (ctx.write (.setCurrentTerm term)).applied :=
    sim.recoveryBump off later
  exact first.write recovery (by nofun)

/-- The node's own steps on the history, with what the context has become meanwhile. -/
theorem advance (steps : Steps (protocol setup.voters) owner history after)
    (numbered : ∀ term, Indexed (after.branch term)) (node : Explains setup compacts after owner ctx'.node)
    (sends : (ctx'.out.sends, ctx'.shipped) = (ctx.out.sends, ctx.shipped))
    (applied : ctx'.applied = ctx.applied) (last : ¬ compacts → ctx'.node.lastApplied = ctx.node.lastApplied)
    (forward : ctx.node.commitIndex ≤ ctx'.node.commitIndex ∧ ctx.node.lastApplied ≤ ctx'.node.lastApplied)
    (journal : sim.Logs ctx') : sim.At after ctx' where
  steps := sim.steps.trans steps
  grows := sim.grows.trans (sim.inv.steps steps).2
  inv := (sim.inv.steps steps).1
  numbered := numbered
  node := node
  sends := fun dest msg member => by
    rw [show ctx'.out.sends = _ from congrArg Prod.fst sends] at member
    obtain ⟨different, genuine⟩ := sim.sends dest msg member
    exact ⟨different, genuine.mono (sim.inv.steps steps).2⟩
  ships := fun dest msg member snapshot carries => by
    rw [show ctx'.out.sends = _ from congrArg Prod.fst sends] at member
    rw [show ctx'.shipped = _ from congrArg Prod.snd sends]
    obtain ⟨storage, shipped, shipment⟩ := sim.ships dest msg member snapshot carries
    exact ⟨storage, shipped, shipment.mono (sim.inv.steps steps).2⟩
  applied := fun entry member => by
    rw [applied] at member
    exact (sim.applied entry member).mono (sim.inv.steps steps).2
  commits := sim.commits.trans forward.1
  applies := sim.applies.trans forward.2
  last := fun off => by rw [last off, applied, sim.last off]
  ascends := fun off => applied ▸ sim.ascends off
  journal := journal

/-- A change to the context that the history does not see. -/
theorem quiet (node : Explains setup compacts history owner ctx'.node)
    (sends : (ctx'.out.sends, ctx'.shipped) = (ctx.out.sends, ctx.shipped))
    (applied : ctx'.applied = ctx.applied)
    (marks : (ctx'.node.commitIndex, ctx'.node.lastApplied) = (ctx.node.commitIndex, ctx.node.lastApplied))
    (storage : ctx'.node.storage = ctx.node.storage) (writes : ctx'.writes = ctx.writes) :
    sim.At history ctx' where
  steps := sim.steps
  grows := sim.grows
  inv := sim.inv
  numbered := sim.numbered
  node := node
  sends := by
    rw [show ctx'.out.sends = _ from congrArg Prod.fst sends]
    exact sim.sends
  ships := by
    rw [show ctx'.out.sends = _ from congrArg Prod.fst sends,
      show ctx'.shipped = _ from congrArg Prod.snd sends]
    exact sim.ships
  applied := by rw [applied]; exact sim.applied
  commits := sim.commits.trans_eq (congrArg Prod.fst marks).symm
  applies := sim.applies.trans_eq (congrArg Prod.snd marks).symm
  last := fun off => by rw [show ctx'.node.lastApplied = _ from congrArg Prod.snd marks, applied,
    sim.last off]
  ascends := fun off => applied ▸ sim.ascends off
  journal := fun off => by
    rw [storage, writes]
    exact sim.journal off

/-- Sending a message, with the storages that a snapshot chunk in it is of. -/
theorem sendOf (storages : List MemStorage) (different : dest ≠ owner)
    (genuine : Genuine setup compacts history owner dest msg)
    (shipment : ∀ snapshot, msg.snapshot? = some snapshot → ∃ storage ∈ storages,
      Shipment setup history storage snapshot) :
    sim.At history ({ ctx with shipped := ctx.shipped ++ storages }.send dest msg) :=
  { sim with
    sends := fun other sent member => by
      rcases List.mem_append.mp member with earlier | now
      · exact sim.sends other sent earlier
      · obtain ⟨rfl, rfl⟩ := Prod.mk.inj (List.mem_singleton.mp now)
        exact ⟨different, genuine⟩
    ships := fun other sent member snapshot carries => by
      rcases List.mem_append.mp member with earlier | now
      · obtain ⟨storage, shipped, rest⟩ := sim.ships other sent earlier snapshot carries
        exact ⟨storage, List.mem_append_left _ shipped, rest⟩
      obtain ⟨rfl, rfl⟩ := Prod.mk.inj (List.mem_singleton.mp now)
      obtain ⟨storage, shipped, rest⟩ := shipment snapshot carries
      exact ⟨storage, List.mem_append_right _ shipped, rest⟩ }

theorem send (different : dest ≠ owner) (genuine : Genuine setup compacts history owner dest msg)
    (plain : msg.snapshot? = none := by rfl) : sim.At history (ctx.send dest msg) := by
  have sent := sim.sendOf [] different genuine fun _ carries =>
    absurd (plain.symm.trans carries) nofun
  rwa [List.append_nil] at sent

theorem setTimer (token after : ℕ) : sim.At history (ctx.setTimer token after) := { sim with }

private theorem cancelTimer (token : ℕ) : sim.At history (ctx.cancelTimer token) := { sim with }

theorem armElectionTimer : sim.At history ctx.armElectionTimer := { sim with }

private theorem armElectionTimerNow : sim.At history ctx.armElectionTimerNow := { sim with }

theorem cancelHeartbeatIf (wasLeader : Bool) : sim.At history (ctx.cancelHeartbeatIf wasLeader) := by
  unfold Ctx.cancelHeartbeatIf
  split
  · exact sim.cancelTimer _
  · exact sim

theorem observeTerm (term : ℕ) : sim.Leads (ctx.observeTerm term).1 := by
  unfold Ctx.observeTerm
  by_cases later : ctx.node.storage.currentTerm < term
  swap
  · rw [if_neg later]
    exact ⟨history, sim⟩
  rw [if_pos later]
  refine ⟨history.bump owner term, armElectionTimer (cancelHeartbeatIf ?_ _)⟩
  have step : Step (protocol setup.voters) owner history (history.bump owner term) :=
    .bump history term (sim.node.term ▸ later)
  have grows : Extends history (history.bump owner term) := .step sim.inv step
  refine sim.advance (.single step) sim.numbered ?_ rfl rfl (fun _ => rfl) ⟨le_rfl, le_rfl⟩
    (sim.journalBump later none)
  have unvoted : ∀ vote, history.votes owner term ≠ some vote := fun vote cast =>
    absurd (sim.inv.voted owner term vote.1 vote.2 cast).1 (by rw [← sim.node.term]; omega)
  exact { sim.node with
    term := by simp [Consensus.State.bump, Ctx.write, MemStorage.write, MemStorage.setVotedFor,
      MemStorage.setCurrentTerm]
    vote := fun candidate log cast => by
      simp only [Consensus.State.bump, Function.update_self] at cast
      exact absurd cast (unvoted _)
    role := by simp [Consensus.State.bump, roleOf]
    log := (sim.node.log.setCurrentTerm term).setVotedFor none
    committed := sim.node.committed.mono grows (grows.terms owner)
    tally := nofun
    matched := nofun
    next := nofun
    idle := fun _ => rfl
    ownAck := nofun
    buffer := sim.node.buffer_mono grows }

theorem stepDownToFollower : sim.At (history.stepDown owner) ctx.stepDownToFollower := by
  have cancelled := sim.cancelHeartbeatIf (ctx.node.role = .leader)
  have step : Step (protocol setup.voters) owner history (history.stepDown owner) := .stepDown history
  have grows : Extends history (history.stepDown owner) := .step sim.inv step
  refine cancelled.advance (.single step) sim.numbered ?_ rfl rfl (fun _ => rfl) ⟨le_rfl, le_rfl⟩
    cancelled.journal
  exact { cancelled.node with
    role := by simp [Consensus.State.stepDown, Ctx.stepDownToFollower, roleOf]
    tally := nofun
    matched := nofun
    next := nofun
    idle := fun _ => rfl
    ownAck := nofun
    buffer := cancelled.node.buffer_mono grows }

theorem followLeader (now leader : ℕ) : sim.Leads (ctx.followLeader now leader) := by
  unfold Ctx.followLeader
  by_cases follower : ctx.node.role = .follower
  · simp only [if_pos follower]
    exact ⟨history, sim.armElectionTimer.quiet { sim.node with } rfl rfl rfl rfl rfl⟩
  simp only [if_neg follower]
  have stepped := sim.stepDownToFollower
  exact ⟨_, stepped.armElectionTimer.quiet { stepped.node with } rfl rfl rfl rfl rfl⟩


theorem sendSnapshotChunkTo (branch : OwnBranch history owner) (different : peer ≠ owner) (offset : ℕ) :
    sim.At history (ctx.sendSnapshotChunkTo peer offset) := by
  unfold Ctx.sendSnapshotChunkTo
  cases found : ctx.node.storage.loadSnapshot with
  | none => exact sim.quiet { sim.node with } rfl rfl rfl rfl rfl
  | some saved =>
    obtain ⟨snapshot, data⟩ := saved
    obtain ⟨recorded, stored⟩ := MemStorage.loadSnapshot_eq_some.mp found
    have positive : 0 < ctx.node.storage.snapIndex := by
      have := (sim.node.log.snapshot snapshot recorded).1
      have := MemStorage.snapIndex_of_some recorded
      omega
    obtain ⟨allowed, describes⟩ := sim.node.snapshotOf recorded
    have saved : ctx.node.storage.loadConfigBaseline = some ctx.node.configBaseline :=
      sim.node.savedBaseline positive
    have bytes : ∀ image : Imaging setup,
        data = image.bytes ((history.log owner).take snapshot.lastIncludedIndex) := by
      intro image
      rw [← stored, sim.node.data positive image, MemStorage.snapIndex_of_some recorded]
    simp only [saved, Option.getD_some]
    refine sim.sendOf [_] different ⟨allowed, sim.node.ident, sim.node.term ▸ branch.elected, _,
      sim.node.term ▸ describes, fun image => ?_⟩ fun carried carries => ?_
    · rw [← bytes image]
      exact ⟨_, le_min (Nat.le_add_right _ _) (min_le_right _ _), rfl, fun done => of_decide_eq_true done⟩
    · obtain rfl := Option.some.inj carries
      exact ⟨_, .head _, _, _, _, _, describes, recorded, saved, fun image => stored.trans (bytes image)⟩

private theorem sendEntriesTo (branch : OwnBranch history owner) (different : peer ≠ owner)
    (above : ctx.node.storage.snapIndex < next) (within : next ≤ (history.log owner).length + 1) :
    sim.At history (ctx.sendEntriesTo peer next) := by
  have erased : sim.At history
      { ctx with node.snapshotNextOffset := ctx.node.snapshotNextOffset.erase peer } :=
    sim.quiet { sim.node with } rfl rfl rfl rfl rfl
  have rebuilt : (history.log owner).take (next - 1) ++ ctx.node.storage.entriesFrom next =
      history.log owner := by
    rw [sim.node.log.entriesFrom above, List.take_append_drop]
  refine erased.send different ⟨sim.node.ident, sim.node.term ▸ branch.elected,
    (history.log owner).take (next - 1), ?_, ?_, ?_, ?_⟩
  · rw [rebuilt, sim.node.term]
    exact branch.log
  · rw [List.length_take_of_le (by omega)]
  · exact sim.node.log.termAt (by omega) (by omega)
  · rw [rebuilt, sim.node.term]
    exact sim.node.committed

/-- A node that leads, or has just stopped leading, may send a peer whatever its next index asks for. -/
theorem sendAppendEntriesTo (branch : OwnBranch history owner) (different : peer ≠ owner) :
    sim.At history (ctx.sendAppendEntriesTo peer) := by
  have known : ctx.node.role ≠ .candidate := fun candidate =>
    branch.known (sim.node.role.trans (by rw [candidate]; rfl))
  have bounds := sim.node.next_bounds known peer
  unfold Ctx.sendAppendEntriesTo
  cases found : ctx.node.storage.loadSnapshot with
  | none =>
    refine sim.sendEntriesTo branch different ?_ bounds.2
    rw [MemStorage.snapIndex_of_none (MemStorage.loadSnapshot_eq_none.mp found)]
    exact bounds.1
  | some saved =>
    have index := MemStorage.snapIndex_of_some (MemStorage.loadSnapshot_eq_some.mp found).1
    simp only
    split_ifs with behind
    · refine sendSnapshotChunkTo ?_ branch different _
      exact sim.quiet { sim.node with } rfl rfl rfl rfl rfl
    · exact sim.sendEntriesTo branch different (by omega) bounds.2

theorem broadcastHeartbeat (branch : OwnBranch history owner) : sim.At history ctx.broadcastHeartbeat := by
  have others : ∀ peer ∈ ctx.node.peers, peer ≠ owner := fun peer member => by
    have := (List.mem_filter.mp member).2
    simpa [sim.node.ident] using this
  unfold Ctx.broadcastHeartbeat
  generalize ctx.node.peers = peers at others
  induction peers generalizing ctx with
  | nil => exact sim
  | cons peer rest ih =>
    refine ih ?_ fun other member => others other (.tail _ member)
    exact sim.sendAppendEntriesTo branch (others peer (.head _))

private theorem configAt (above : ctx.node.storage.snapIndex ≤ index)
    (within : index ≤ (history.log owner).length) :
    ctx.node.configAt index = members setup.voters ((history.log owner).take index) := by
  unfold RaftNode.configAt
  rw [sim.node.log.lastIndex, min_eq_right within, sim.node.baseline]
  exact sim.node.log.configThrough setup.voters above within

private theorem takeSnapshot (allowed : compacts) (above : ctx.node.storage.snapIndex < ctx.node.lastApplied) :
    sim.At history ctx.takeSnapshot := by
  have within : ctx.node.lastApplied ≤ (history.log owner).length :=
    sim.node.appliedLe.trans sim.node.commitLe
  have baseline := sim.configAt above.le within
  have term := sim.node.log.termAt above.le within
  unfold Ctx.takeSnapshot
  rw [term]
  generalize ctx.node.configAt ctx.node.lastApplied = saved at baseline
  have view := (sim.node.log.saveConfigBaseline saved.1 saved.2).compact above within
    (machine.snapshot ctx.node.sm)
  obtain ⟨currentTerm, votedFor, snapMeta, snapData, configBaseline⟩ := MemStorage.compactTo_fields
    ((ctx.node.storage.saveConfigBaseline saved.1 saved.2).saveSnapshot
      ⟨ctx.node.lastApplied, lastTerm ((history.log owner).take ctx.node.lastApplied)⟩
      (machine.snapshot ctx.node.sm)) ctx.node.lastApplied
  have snapIndex := MemStorage.snapIndex_of_some snapMeta
  exact { sim with
    node := { sim.node with
      term := currentTerm.trans sim.node.term
      vote := fun candidate log cast => votedFor.trans (sim.node.vote candidate log cast)
      log := view
      baseline := baseline.trans
        (congrArg (fun index => members setup.voters ((history.log owner).take index)) snapIndex.symm)
      savedBaseline := fun _ => configBaseline
      noBaseline := fun zero => by
        have positive : 0 < ctx.node.lastApplied := by omega
        exact absurd (snapIndex.symm.trans zero) positive.ne'
      compacted := fun _ => allowed
      snapLe := snapIndex.le
      data := fun _ image => (snapData.trans (image.snapshot _ _ (sim.node.state image))).trans
          (congrArg (fun index => image.bytes ((history.log owner).take index)) snapIndex.symm) }
    journal := absurd allowed }

private theorem maybeCompact : sim.At history ctx.maybeCompact := by
  unfold Ctx.maybeCompact
  split
  · rename_i due
    simp only [Ctx.compactionDue, MemStorage.loadSnapshot_index, decide_eq_true_eq] at due
    exact sim.takeSnapshot (sim.node.threshold due.1) due.2.1
  · exact sim

/-- Applying committed entries finds each of them in the log. -/
private theorem applyNext (within : ctx.node.lastApplied + count ≤ ctx.node.commitIndex) :
    ∃ done, Ctx.applyNext count ctx = .ok done ∧ sim.At history done ∧
      done.node.lastApplied = ctx.node.lastApplied + count ∧
      done.node.commitIndex = ctx.node.commitIndex := by
  induction count generalizing ctx with
  | zero => exact ⟨ctx, rfl, sim, rfl, rfl⟩
  | succ count ih =>
    have position : ctx.node.lastApplied < (history.log owner).length :=
      lt_of_lt_of_le (by omega) sim.node.commitLe
    have read : ctx.node.storage.entryAt (ctx.node.lastApplied + 1) =
        (history.log owner)[ctx.node.lastApplied]? :=
      sim.node.log.entryAt (Nat.lt_succ_of_le sim.node.snapLe) position
    obtain ⟨entry, found⟩ : ∃ entry, (history.log owner)[ctx.node.lastApplied]? = some entry :=
      ⟨_, List.getElem?_eq_getElem position⟩
    have index := sim.node.log.indexed _ _ found
    simp only [Ctx.applyNext, read, found]
    have next : sim.At history
        { ctx with
          node.lastApplied := ctx.node.lastApplied + 1
          node.sm := machine.apply ctx.node.sm entry
          applied := ctx.applied ++ [entry] } :=
      { sim with
        node := { sim.node with
          snapLe := sim.node.snapLe.trans (Nat.le_succ _)
          appliedLe := by dsimp only; omega
          state := fun image => by
            rw [List.take_add_one, found]
            exact image.apply _ _ _ (sim.node.state image) }
        applied := fun other member => by
          rcases List.mem_append.mp member with earlier | now
          · exact sim.applied other earlier
          obtain rfl := List.mem_singleton.mp now
          refine sim.node.committed.chosen ?_ index
          rw [List.getElem?_take, if_pos (by omega), found]
        applies := sim.applies.trans (Nat.le_succ _)
        last := fun off => by
          rw [List.length_append, List.length_singleton, sim.last off]
          rfl
        ascends := fun off => (sim.ascends off).concat (index.trans (by rw [sim.last off])) }
    obtain ⟨done, result, simDone, last, commit⟩ := ih next (by dsimp only; omega)
    exact ⟨done, result, simDone, by rw [last]; dsimp only; omega, commit⟩

theorem commitTo (later : ctx.node.commitIndex ≤ index) (within : index ≤ (history.log owner).length)
    (committed : Committed history (history.term owner) ((history.log owner).take index)) :
    ∃ done, ctx.commitTo index = .ok done ∧ sim.At history done := by
  have raised : sim.At history ({ ctx with node.commitIndex := index }.noteCommittedThrough index) :=
    { sim with
      node := { sim.node with
        appliedLe := sim.node.appliedLe.trans later
        commitLe := within
        committed }
      commits := sim.commits.trans later }
  obtain ⟨applied, result, simApplied, -⟩ :=
    raised.applyNext (Nat.add_sub_of_le raised.node.appliedLe).le
  refine ⟨applied.maybeCompact, ?_, simApplied.maybeCompact⟩
  unfold Ctx.commitTo Ctx.applyCommitted
  rw [result]
  rfl

theorem protocol_voters : (protocol setup.voters).voters (history.log owner) = ctx.node.voters.toFinset :=
  congrArg (fun sets : NodeSet × NodeSet => sets.1.toFinset) sim.node.config.symm

/-- The copies a leader counts are copies that voters have confirmed. -/
private theorem replicated_majority (leader : ctx.node.role = .leader)
    (within : index ≤ (history.log owner).length)
    (counted : ctx.node.majority ≤ ctx.node.replicatedCount index) :
    IsMajority ctx.node.voters.toFinset (ctx.node.voters.toFinset.filter fun voter =>
        index ≤ history.acks voter (history.term owner)) := by
  unfold IsMajority
  rw [inter_eq_left.mpr (filter_subset _ _)]
  set copies := ctx.node.voters.toFinset.filter fun voter =>
    index ≤ history.acks voter (history.term owner)
  have others : (ctx.node.matchIndex.toList.countP fun binding =>
      binding.1 ∈ ctx.node.voters ∧ index ≤ binding.2) ≤ (copies.erase owner).card := by
    refine OrdMap.countP_le_card _ _ _ fun peer matched found passes => ?_
    obtain ⟨different, copied⟩ := sim.node.matched leader peer matched found
    simp only [decide_eq_true_eq] at passes
    simp only [copies, mem_erase, mem_filter, OrdSet.mem_toFinset]
    exact ⟨different, passes.1, passes.2.trans copied⟩
  refine counted.trans ?_
  unfold RaftNode.replicatedCount
  rw [sim.node.ident]
  split_ifs with voter
  · have own : owner ∈ copies := by
      simp only [copies, mem_filter, OrdSet.mem_toFinset]
      exact ⟨voter, within.trans (sim.node.ownAck leader)⟩
    have := card_erase_add_one own
    omega
  · exact others.trans (card_le_card (erase_subset _ _))

private theorem stepDownIfRemoved : ∃ after, sim.At after ctx.stepDownIfRemoved ∧
      (OwnBranch history owner → OwnBranch after owner) := by
  unfold Ctx.stepDownIfRemoved
  split
  · refine ⟨_, sim.stepDownToFollower.armElectionTimerNow, fun branch => ?_⟩
    exact ⟨branch.elected, branch.log, by simp [Consensus.State.stepDown]⟩
  · exact ⟨history, sim, id⟩

/-- A leader commits what a majority of the voters of its own log have confirmed. -/
private theorem commitHighest (leader : ctx.node.role = .leader) (above : ctx.node.commitIndex < index)
    (within : index ≤ (history.log owner).length)
    (current : ctx.node.storage.termAt index = ctx.node.storage.currentTerm)
    (counted : ctx.node.majority ≤ ctx.node.replicatedCount index) :
    ∃ done, ctx.commitTo index = .ok done ∧ ∃ after, sim.At after done ∧
        (OwnBranch history owner → OwnBranch after owner) := by
  have majority := sim.replicated_majority leader within counted
  set copies := ctx.node.voters.toFinset.filter fun voter =>
    index ≤ history.acks voter (history.term owner) with copiesDef
  have length : ((history.log owner).take index).length = index := List.length_take_of_le within
  have step : Step (protocol setup.voters) owner history
      (history.commit owner ((history.log owner).take index) copies) := by
    refine .commit history _ copies (sim.node.role.trans (by rw [leader]; rfl))
      (List.take_prefix _ _) ?_ (sim.protocol_voters ▸ majority) fun voter member => ?_
    · have read := sim.node.log.termAt ((sim.node.snapLe.trans sim.node.appliedLe).trans above.le) within
      exact read.symm.trans (current.trans sim.node.term)
    · rw [length]
      exact (mem_filter.mp member).2
  have same : SameNode history (history.commit owner ((history.log owner).take index) copies)
      owner := ⟨rfl, rfl, rfl, rfl⟩
  have committed : sim.At (history.commit owner ((history.log owner).take index) copies) ctx :=
    sim.advance (.single step) sim.numbered (sim.node.mono (.step sim.inv step) same) rfl rfl
      (fun _ => rfl) ⟨le_rfl, le_rfl⟩ sim.journal
  obtain ⟨done, result, simDone⟩ := committed.commitTo above.le within
    (.inr ⟨_, List.mem_cons_self, le_rfl, List.prefix_rfl⟩)
  exact ⟨done, result, _, simDone, fun branch => { branch with }⟩

theorem maybeAdvanceCommit : ∃ done, ctx.maybeAdvanceCommit = .ok done ∧ ∃ after, sim.At after done ∧
        (OwnBranch history owner → OwnBranch after owner) := by
  unfold Ctx.maybeAdvanceCommit
  by_cases leader : ctx.node.role = .leader
  swap
  · rw [if_neg leader]
    exact ⟨ctx, rfl, history, sim, id⟩
  rw [if_pos leader]
  rw [sim.node.log.lastIndex]
  by_cases higher : ctx.node.commitIndex < ctx.node.highestCommittable (history.log owner).length
  · rw [if_pos higher]
    obtain ⟨-, within, current, counted⟩ := (ctx.node.highestCommittable_spec
      (history.log owner).length).resolve_left higher.ne'
    obtain ⟨done, result, after, simDone, kept⟩ :=
      sim.commitHighest leader higher within current counted
    obtain ⟨final, simFinal, kept'⟩ := simDone.stepDownIfRemoved
    rw [result]
    exact ⟨_, rfl, final, simFinal, fun branch => kept' (kept branch)⟩
  · rw [if_neg higher]
    obtain ⟨final, simFinal, kept⟩ := sim.stepDownIfRemoved
    exact ⟨_, rfl, final, simFinal, kept⟩

end

end Sim

end IronCache.Raft
