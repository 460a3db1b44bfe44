import IronCache.Lib.Consensus.Steps
import IronCache.Raft.Engine
import IronCache.Raft.LogView

/-!
# The engine as a refinement of the replicated log

A message is `Genuine` when the history gives its sender reason to send it, and stays so however
late it arrives.
-/

namespace IronCache.Raft

open Consensus (Protocol Inv Extends Steps SameNode)
open List

abbrev History := Consensus.State NodeId LogEntry

theorem applyEntryDelta_keep (members : NodeSet × NodeSet) (entry : LogEntry)
    (keep : ¬ entry.payload.change?.isSome) : applyEntryDelta members entry = members := by
  unfold applyEntryDelta
  split
  · rename_i change payload
    simp [payload, EntryPayload.change?] at keep
  · rfl

private theorem applyMembershipDelta_near (members : NodeSet × NodeSet) (change : MembershipChange) :
    Neighbours members.1.toFinset (applyMembershipDelta members change).1.toFinset := by
  cases change with
  | addVoter node =>
    refine .inr ⟨node, ?_⟩
    simpa only [applyMembershipDelta, OrdSet.toFinset_insert] using differAt_insert node _
  | removeVoter node =>
    refine .inr ⟨node, ?_⟩
    simpa only [applyMembershipDelta, OrdSet.toFinset_erase] using differAt_erase node _
  | addLearner node =>
    left
    simp only [applyMembershipDelta]
    split <;> rfl
  | promoteLearner node =>
    refine .inr ⟨node, ?_⟩
    simpa only [applyMembershipDelta, OrdSet.toFinset_insert] using differAt_insert node _
  | removeLearner node => exact .refl _

/-- The engine's log entries, and the voters its logs prescribe, as a protocol. -/
def protocol (seed : NodeSet) : Protocol NodeId LogEntry where
  term := LogEntry.term
  Reconfigures entry := entry.payload.change?.isSome
  voters log := (members seed log).1.toFinset
  voters_keep log entry keep := by
    simp [applyEntryDelta_keep _ entry keep]
  voters_step log entry := by
    rw [members_append, foldl_cons, foldl_nil]
    unfold applyEntryDelta
    split
    · exact applyMembershipDelta_near _ _
    · exact .refl _

/-- The log of a commitment made no later than a term, or a prefix of one. -/
def Committed (history : History) (bound : ℕ) (log : List LogEntry) : Prop :=
  log = [] ∨ ∃ commit ∈ history.commits, commit.term ≤ bound ∧ log <+: commit.log

/-- A state machine whose snapshot is a function of the entries applied: which states stand
for which entries, and the bytes of the snapshot that such a state takes. -/
structure Imaging {machine : StateMachine} (setup : Setup machine) where
  bytes : List LogEntry → List UInt8
  Holds : machine.State → List LogEntry → Prop
  blank : ∀ owner, Holds (setup.blank owner) []
  apply : ∀ state log entry, Holds state log → Holds (machine.apply state entry) (log ++ [entry])
  snapshot : ∀ state log, Holds state log → machine.snapshot state = bytes log
  restore : ∀ state log, Holds (machine.restore state (bytes log)) log

/-- A snapshot's description is that of a committed log. -/
structure SnapshotOf (seed : NodeSet) (history : History) (bound : ℕ) (log : List LogEntry)
    (index term : ℕ) (voters learners : NodeSet) : Prop where
  committed : Committed history bound log
  length : log.length = index
  positive : 0 < index
  lastTerm : lastTerm log = term
  members : members seed log = (voters, learners)

/-- A part of some bytes, from an offset on; the last part reaches to their end. -/
def ChunkOf (whole : List UInt8) (offset : ℕ) (data : List UInt8) (done : Bool) : Prop :=
  ∃ stop, offset ≤ stop ∧ data = (whole.take stop).drop offset ∧ (done = true → whole.length ≤ stop)

/-- The history gives the sender reason to send the message. -/
def Genuine (setup : Setup machine) (compacts : Prop) (history : History) (source dest : NodeId) :
    RaftMsg → Prop
  | .requestVote term candidate lastLogIndex lastLogTerm =>
    candidate = source ∧ ∃ log, history.campaigns source term = some log ∧
      lastLogIndex = log.length ∧ lastLogTerm = lastTerm log
  | .requestVoteResp term voteGranted =>
    voteGranted = true → ∃ log, history.votes source term = some (dest, log)
  | .preVote _ candidate _ _ => candidate = source
  | .preVoteResp _ _ => True
  | .appendEntries term leader prevLogIndex prevLogTerm entries leaderCommit =>
    leader = source ∧ history.Elected term ∧ ∃ before,
      before ++ entries <+: history.branch term ∧ prevLogIndex = before.length ∧
        prevLogTerm = lastTerm before ∧
        Committed history term ((before ++ entries).take leaderCommit)
  | .appendEntriesResp term success matchIndex =>
    success = true → matchIndex ≤ history.acks source term
  | .propose _ => False
  | .forwardPropose _ _ => False
  | .forwardProposeResult _ _ => False
  | .installSnapshot term leaderId index snapTerm offset data done voters learners =>
    compacts ∧ leaderId = source ∧ history.Elected term ∧ ∃ log,
      SnapshotOf setup.voters history term log index snapTerm voters learners ∧
      ∀ image : Imaging setup, ChunkOf (image.bytes log) offset data done
  | .installSnapshotResp term index installed _ =>
    installed = true → index ≤ history.acks source term

def Indexed (log : List LogEntry) : Prop :=
  ∀ position entry, log[position]? = some entry → entry.index = position + 1

theorem Indexed.shorten (indexed : Indexed log) (shorter : log' <+: log) : Indexed log' := by
  intro position entry found
  obtain ⟨tail, rfl⟩ := shorter
  refine indexed position entry ?_
  rw [List.getElem?_append_left (List.getElem?_eq_some_iff.mp found).1, found]

def roleOf : Role → Consensus.Role
  | .follower => .follower
  | .candidate => .candidate
  | .leader => .leader

/-- A node's state as the history explains it. -/
structure Explains (setup : Setup machine) (compacts : Prop) (history : History) (owner : NodeId)
    (node : RaftNode machine) : Prop where
  ident : node.id = owner
  term : node.storage.currentTerm = history.term owner
  vote : ∀ candidate log, history.votes owner (history.term owner) = some (candidate, log) →
    node.storage.votedFor = some candidate
  role : history.role owner = roleOf node.role
  log : Represents node.storage (history.log owner)
  config : (node.voters, node.learners) = members setup.voters (history.log owner)
  baseline : node.configBaseline = members setup.voters ((history.log owner).take node.storage.snapIndex)
  savedBaseline : 0 < node.storage.snapIndex → node.storage.configBaseline = some node.configBaseline
  noBaseline : node.storage.snapIndex = 0 → node.storage.configBaseline = none
  compacted : 0 < node.storage.snapIndex → compacts
  threshold : node.config.snapshotThreshold ≠ 0 → compacts
  snapLe : node.storage.snapIndex ≤ node.lastApplied
  appliedLe : node.lastApplied ≤ node.commitIndex
  commitLe : node.commitIndex ≤ (history.log owner).length
  committed : Committed history (history.term owner) ((history.log owner).take node.commitIndex)
  tally : node.role = .candidate → ∀ voter ∈ node.votes, ∃ log,
    history.votes voter (history.term owner) = some (owner, log)
  matched : node.role = .leader → ∀ peer index, node.matchIndex.get? peer = some index →
    peer ≠ owner ∧ index ≤ history.acks peer (history.term owner)
  next : node.role = .leader → ∀ peer index, node.nextIndex.get? peer = some index →
    0 < index ∧ index ≤ (history.log owner).length + 1
  idle : node.role = .follower → node.nextIndex = ∅
  ownAck : node.role = .leader → (history.log owner).length ≤ history.acks owner (history.term owner)
  buffer : ∀ rx, node.snapshotRx = some rx → compacts ∧ ∃ log,
    SnapshotOf setup.voters history (history.term owner) log rx.lastIncludedIndex
      rx.lastIncludedTerm rx.voters rx.learners ∧
    ∀ image : Imaging setup, rx.data <+: image.bytes log
  state : ∀ image : Imaging setup, image.Holds node.sm ((history.log owner).take node.lastApplied)
  data : 0 < node.storage.snapIndex → ∀ image : Imaging setup,
    node.storage.snapData = image.bytes ((history.log owner).take node.storage.snapIndex)

/-- What a node has persisted, as the history explains it: enough to restart from. -/
structure Persists (setup : Setup machine) (compacts : Prop) (history : History) (owner : NodeId)
    (storage : MemStorage) : Prop where
  term : storage.currentTerm = history.term owner
  vote : ∀ candidate log, history.votes owner (history.term owner) = some (candidate, log) →
    storage.votedFor = some candidate
  log : Represents storage (history.log owner)
  savedBaseline : 0 < storage.snapIndex → storage.configBaseline =
      some (members setup.voters ((history.log owner).take storage.snapIndex))
  noBaseline : storage.snapIndex = 0 → storage.configBaseline = none
  compacted : 0 < storage.snapIndex → compacts
  committed : Committed history (history.term owner) ((history.log owner).take storage.snapIndex)
  data : 0 < storage.snapIndex → ∀ image : Imaging setup,
    storage.snapData = image.bytes ((history.log owner).take storage.snapIndex)

section Growth

variable {machine : StateMachine} {setup : Setup machine} {history after : History}

theorem Committed.mono (committed : Committed history bound log) (grows : Extends history after)
    (later : bound ≤ bound') : Committed after bound' log := by
  rcases committed with empty | ⟨commit, member, early, inCommit⟩
  · exact .inl empty
  · exact .inr ⟨commit, grows.commits member, early.trans later, inCommit⟩

theorem Committed.shorten (committed : Committed history bound log) (shorter : log' <+: log) :
    Committed history bound log' := by
  rcases committed with rfl | ⟨commit, member, early, inCommit⟩
  · exact .inl (prefix_nil.mp shorter)
  · exact .inr ⟨commit, member, early, shorter.trans inCommit⟩

theorem SnapshotOf.mono (snapshot : SnapshotOf seed history bound log index snapTerm voters learners)
    (grows : Extends history after) (later : bound ≤ bound') :
    SnapshotOf seed after bound' log index snapTerm voters learners :=
  { snapshot with committed := snapshot.committed.mono grows later }

theorem Genuine.mono (genuine : Genuine setup compacts history source dest msg)
    (grows : Extends history after) : Genuine setup compacts after source dest msg := by
  cases msg with
  | requestVote =>
    obtain ⟨same, log, stood, rest⟩ := genuine
    exact ⟨same, log, grows.campaigns _ _ _ stood, rest⟩
  | requestVoteResp =>
    intro granted
    obtain ⟨log, cast⟩ := genuine granted
    exact ⟨log, grows.votes _ _ _ cast⟩
  | preVote => exact genuine
  | preVoteResp => trivial
  | appendEntries =>
    obtain ⟨same, elected, before, onBranch, index, term, committed⟩ := genuine
    exact ⟨same, grows.elected elected, before, onBranch.trans (grows.branches _), index, term,
      committed.mono grows le_rfl⟩
  | appendEntriesResp => exact fun success => (genuine success).trans (grows.acks _ _)
  | propose => exact genuine
  | forwardPropose => exact genuine
  | forwardProposeResult => exact genuine
  | installSnapshot =>
    obtain ⟨allowed, same, elected, log, snapshot, chunk⟩ := genuine
    exact ⟨allowed, same, grows.elected elected, log, snapshot.mono grows le_rfl, chunk⟩
  | installSnapshotResp => exact fun installed => (genuine installed).trans (grows.acks _ _)

theorem Explains.buffer_mono (explains : Explains setup compacts history owner node)
    (grows : Extends history after) (rx : SnapshotRx) (held : node.snapshotRx = some rx) :
    compacts ∧ ∃ log, SnapshotOf setup.voters after (after.term owner) log rx.lastIncludedIndex
      rx.lastIncludedTerm rx.voters rx.learners ∧
    ∀ image : Imaging setup, rx.data <+: image.bytes log := by
  obtain ⟨allowed, log, snapshot, part⟩ := explains.buffer rx held
  exact ⟨allowed, log, snapshot.mono grows (grows.terms owner), part⟩

/-- The history's explanation of a node survives the steps of other nodes. -/
theorem Explains.mono (explains : Explains setup compacts history owner node)
    (grows : Extends history after) (same : SameNode history after owner) :
    Explains setup compacts after owner node where
  ident := explains.ident
  term := explains.term.trans same.term.symm
  vote := by rw [same.term, same.votes]; exact explains.vote
  role := same.role.trans explains.role
  log := by rw [same.log]; exact explains.log
  config := by rw [same.log]; exact explains.config
  baseline := by rw [same.log]; exact explains.baseline
  savedBaseline := explains.savedBaseline
  noBaseline := explains.noBaseline
  compacted := explains.compacted
  threshold := explains.threshold
  snapLe := explains.snapLe
  appliedLe := explains.appliedLe
  commitLe := by rw [same.log]; exact explains.commitLe
  committed := by
    rw [same.log, same.term]
    exact explains.committed.mono grows le_rfl
  tally := fun candidate voter member => by
    obtain ⟨log, cast⟩ := explains.tally candidate voter member
    exact ⟨log, same.term ▸ grows.votes _ _ _ cast⟩
  matched := fun leader peer index found => by
    obtain ⟨different, copied⟩ := explains.matched leader peer index found
    exact ⟨different, same.term ▸ copied.trans (grows.acks _ _)⟩
  next := by rw [same.log]; exact explains.next
  idle := explains.idle
  ownAck := fun leader => by
    rw [same.log, same.term]
    exact (explains.ownAck leader).trans (grows.acks _ _)
  buffer := explains.buffer_mono grows
  state := by rw [same.log]; exact explains.state
  data := by rw [same.log]; exact explains.data

end Growth

section Logs

variable {history : History}

theorem Committed.on_branch (committed : Committed history term log)
    (inv : Inv (protocol seed) history) (elected : history.Elected term) : log <+: history.branch term := by
  obtain ⟨election, won, rfl⟩ := elected
  rcases committed with rfl | ⟨commit, member, early, inCommit⟩
  · exact nil_prefix
  · exact inCommit.trans (inv.commit_log_of_elected member won early)

theorem Committed.comparable (first : Committed history bound log)
    (second : Committed history bound' log') (inv : Inv (protocol seed) history) :
    log <+: log' ∨ log' <+: log := by
  rcases first with rfl | ⟨commit, member, -, inCommit⟩
  · exact .inl nil_prefix
  rcases second with rfl | ⟨commit', member', -, inCommit'⟩
  · exact .inr nil_prefix
  rcases inv.commits_comparable member member' with shorter | longer
  · exact prefix_or_prefix_of_prefix (inCommit.trans shorter) inCommit'
  · exact prefix_or_prefix_of_prefix inCommit (inCommit'.trans longer)

theorem branch_term_pos (inv : Inv (protocol seed) history) :
    ∀ entry ∈ history.branch term, 0 < entry.term := by
  intro entry member
  obtain ⟨before, after, split⟩ := append_of_mem member
  have position : before ++ [entry] <+: history.branch term := ⟨after, by simp [split]⟩
  obtain ⟨-, election, won, same⟩ := inv.branchRooted term before entry position
  exact (inv.election_positive won).trans_eq same

end Logs

namespace Explains

variable {machine : StateMachine} {setup : Setup machine} {history : History} {node : RaftNode machine}

section

variable (explains : Explains setup compacts history owner node)
include explains

theorem leads (inv : Inv (protocol setup.voters) history) (leader : node.role = .leader) :
    history.log owner = history.branch (history.term owner) ∧
      history.Elected (history.term owner) := by
  obtain ⟨onBranch, election, won, -, term⟩ :=
    inv.leads owner (explains.role.trans (by rw [leader]; rfl))
  exact ⟨onBranch, election, won, term⟩

/-- A next index is a position of the log or the one after its end. -/
theorem next_bounds (known : node.role ≠ .candidate) (peer : NodeId) : 0 < (node.nextIndex.get? peer).getD 1 ∧
      (node.nextIndex.get? peer).getD 1 ≤ (history.log owner).length + 1 := by
  cases found : node.nextIndex.get? peer with
  | none => simp
  | some next =>
    cases role : node.role with
    | leader => exact explains.next role peer next found
    | follower =>
      rw [explains.idle role] at found
      exact absurd found nofun
    | candidate => exact absurd role known

theorem snapIndex_le : node.storage.snapIndex ≤ (history.log owner).length :=
  explains.snapLe.trans (explains.appliedLe.trans explains.commitLe)

theorem committed_take (within : index ≤ node.commitIndex) :
    Committed history (history.term owner) ((history.log owner).take index) :=
  explains.committed.shorten (take_prefix_take_left within)

theorem persists : Persists setup compacts history owner node.storage where
  term := explains.term
  vote := explains.vote
  log := explains.log
  savedBaseline := fun positive => explains.baseline ▸ explains.savedBaseline positive
  noBaseline := explains.noBaseline
  compacted := explains.compacted
  committed := explains.committed_take (explains.snapLe.trans explains.appliedLe)
  data := explains.data

/-- A node stopped right after persisting a later term, its vote still the old one. -/
theorem persists_bump (inv : Inv (protocol setup.voters) history)
    (later : node.storage.currentTerm < target) : Persists setup compacts (history.bump owner target) owner
      (node.storage.setCurrentTerm target) := by
  have later' : history.term owner < target := explains.term ▸ later
  have grows : Extends history (history.bump owner target) :=
    .step inv (.bump history target later')
  exact { explains.persists with
    term := by simp [Consensus.State.bump, MemStorage.setCurrentTerm]
    vote := fun candidate log cast => by
      simp only [Consensus.State.bump, Function.update_self] at cast
      exact absurd (inv.voted owner target candidate log cast).1 (by omega)
    log := explains.log.setCurrentTerm target
    committed := explains.persists.committed.mono grows (grows.terms owner) }

/-- A node's stored snapshot describes a committed prefix of its log. -/
theorem snapshotOf (found : node.storage.snapMeta = some snapshot) :
    compacts ∧ SnapshotOf setup.voters history (history.term owner)
      ((history.log owner).take snapshot.lastIncludedIndex) snapshot.lastIncludedIndex
      snapshot.lastIncludedTerm node.configBaseline.1 node.configBaseline.2 := by
  obtain ⟨positive, term⟩ := explains.log.snapshot snapshot found
  have index := MemStorage.snapIndex_of_some found
  have length : ((history.log owner).take snapshot.lastIncludedIndex).length =
      snapshot.lastIncludedIndex :=
    length_take_of_le (index ▸ explains.snapIndex_le)
  refine ⟨explains.compacted (index ▸ positive),
    explains.committed_take (index ▸ explains.snapLe.trans explains.appliedLe), length, positive,
    term.symm, ?_⟩
  rw [← index, ← explains.baseline]

end

end Explains

end IronCache.Raft
