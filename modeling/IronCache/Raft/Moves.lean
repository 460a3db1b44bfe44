import IronCache.Raft.Cluster

/-!
# What a step can do

Every step of a node is a sequence of moves. An invariant that every move keeps holds of every step.
-/

namespace IronCache.Raft

variable {machine : StateMachine}

/-- The part of a context that moves change. -/
structure Core where
  id : NodeId
  voters : NodeSet
  learners : NodeSet
  configBaseline : NodeSet × NodeSet
  role : Role
  votes : NodeSet
  storage : MemStorage
  commitIndex : ℕ
  matchIndex : OrdMap NodeId ℕ
  snapshotRx : Option SnapshotRx
  sends : List (NodeId × RaftMsg)
  writes : List Write
  applied : List LogEntry

def Core.write (core : Core) (op : StorageOp) : Core :=
  { core with
    storage := core.storage.write op
    writes := core.writes ++ [⟨op, core.commitIndex, core.applied⟩] }

def Ctx.core (ctx : Ctx machine) : Core where
  id := ctx.node.id
  voters := ctx.node.voters
  learners := ctx.node.learners
  configBaseline := ctx.node.configBaseline
  role := ctx.node.role
  votes := ctx.node.votes
  storage := ctx.node.storage
  commitIndex := ctx.node.commitIndex
  matchIndex := ctx.node.matchIndex
  snapshotRx := ctx.node.snapshotRx
  sends := ctx.out.sends
  writes := ctx.writes
  applied := ctx.applied

namespace Input

/-- The input confirms that a peer holds the log up to an index. -/
def Acks (input : Input) (peer : NodeId) (index : ℕ) : Prop :=
  (∃ term, input = .message peer (.appendEntriesResp term true index)) ∨
    ∃ term next, input = .message peer (.installSnapshotResp term index true next)

/-- The input brings an entry of a leader's log. -/
def Carries (input : Input) (entry : LogEntry) : Prop :=
  ∃ source term leader prevLogIndex prevLogTerm entries leaderCommit, input = .message source
      (.appendEntries term leader prevLogIndex prevLogTerm entries leaderCommit) ∧
    entry ∈ entries

/-- The input brings a snapshot's membership. -/
def Offers (input : Input) (members : NodeSet × NodeSet) : Prop :=
  ∃ source term leader index snapTerm offset data done, input = .message source
    (.installSnapshot term leader index snapTerm offset data done members.1 members.2)

def Proposes (input : Input) (payload : EntryPayload) : Prop :=
  input = .propose payload ∨ ∃ source, input = .message source (.propose payload)

end Input

namespace Core

/-- What a node that sends a message knows. -/
def Sends (core : Core) (dest : NodeId) : RaftMsg → Prop
  | .requestVoteResp term voteGranted => voteGranted = true →
      term = core.storage.currentTerm ∧ core.storage.votedFor = some dest
  | .appendEntries _ _ _ _ entries _ => entries ⊆ core.storage.log
  | .installSnapshot _ _ _ _ _ _ _ voters learners =>
    (voters, learners) = core.storage.configBaseline.getD (∅, ∅)
  -- Proposals reach a node from outside; no node sends one.
  | .propose _ => False
  | _ => True

/-- The membership of a snapshot that arrives, now or in the chunks before. -/
def Recalls (core : Core) (input : Input) (members : NodeSet × NodeSet) : Prop :=
  input.Offers members ∨ ∃ held, core.snapshotRx = some held ∧ members = (held.voters, held.learners)

/-- The membership the stored log prescribes up to an index. -/
def membersThrough (core : Core) (last : ℕ) : NodeSet × NodeSet :=
  core.storage.configThrough core.configBaseline last

end Core

/-- One move of a step on an input. -/
inductive Move (input : Input) : Core → Core → Prop where
  | send (core) (dest : NodeId) (msg : RaftMsg) (reason : core.Sends dest msg) :
      Move input core { core with sends := core.sends ++ [(dest, msg)] }
  | observe (core) (term : ℕ) (later : core.storage.currentTerm < term) : Move input core
        { (core.write (.setCurrentTerm term)).write (.setVotedFor none) with
          role := .follower
          votes := ∅
          matchIndex := ∅ }
  | stepDown (core) : Move input core { core with role := .follower, votes := ∅, matchIndex := ∅ }
  | campaign (core) : Move input core
        { (core.write (.setCurrentTerm (core.storage.currentTerm + 1))).write
            (.setVotedFor (some core.id)) with
          role := .candidate
          votes := (∅ : NodeSet).insert core.id }
  | tally (core) (voter : NodeId) (candidate : core.role = .candidate)
      (granted : input = .message voter (.requestVoteResp core.storage.currentTerm true)) :
      Move input core { core with votes := core.votes.insert voter }
  | lead (core) (marks : OrdMap NodeId ℕ) (candidate : core.role = .candidate)
      (counted : core.voters.size / 2 + 1 ≤ (core.votes.filter (· ∈ core.voters)).size)
      (fresh : ∀ peer index, marks.get? peer = some index → index = 0) :
      Move input core { core with role := .leader, matchIndex := marks }
  | grant (core) (candidate : NodeId)
      (free : core.storage.votedFor = none ∨ core.storage.votedFor = some candidate) :
      Move input core (core.write (.setVotedFor (some candidate)))
  | append (core) (payload : EntryPayload) (origin : payload = .noop ∨ input.Proposes payload) :
      Move input core (core.write
        (.append ⟨core.storage.currentTerm, core.storage.lastLogIndex + 1, payload⟩))
  | track (core) (marks : OrdMap NodeId ℕ) (fresh : ∀ peer index, marks.get? peer = some index →
        index = 0 ∨ core.matchIndex.get? peer = some index) :
      Move input core { core with matchIndex := marks }
  | note (core) (peer : NodeId) (index : ℕ) (acked : input.Acks peer index) : Move input core
        { core with
          matchIndex := core.matchIndex.insert peer (max ((core.matchIndex.get? peer).getD 0) index) }
  | truncate (core) (index : ℕ) : Move input core (core.write (.truncateFrom index))
  | extend (core) (entries : List LogEntry) (carried : ∀ entry ∈ entries, input.Carries entry) :
      Move input core (core.write (.appendEntries entries))
  | configure (core) : Move input core
        { core with
          voters := (core.membersThrough core.storage.lastLogIndex).1
          learners := (core.membersThrough core.storage.lastLogIndex).2 }
  | commit (core) (index : ℕ) : Move input core { core with commitIndex := index }
  | apply (core) (entry : LogEntry) : Move input core { core with applied := core.applied ++ [entry] }
  | rebase (core) (members : NodeSet × NodeSet)
      (origin : (∃ last, members = core.membersThrough last) ∨ core.Recalls input members) : Move input core
        { core.write (.saveConfigBaseline members.1 members.2) with configBaseline := members }
  | save (core) (snapshot : SnapshotMeta) (data : List UInt8) :
      Move input core (core.write (.saveSnapshot snapshot data))
  | drop (core) (index : ℕ) : Move input core (core.write (.compactTo index))
  | buffer (core) (rx : Option SnapshotRx)
      (origin : ∀ held, rx = some held → core.Recalls input (held.voters, held.learners)) :
      Move input core { core with snapshotRx := rx }

abbrev Moves (input : Input) : Core → Core → Prop := Relation.ReflTransGen (Move input)

namespace Ctx

variable {input : Input}

/-- Moves from a context that differs outside the part moves depend on. -/
theorem tuned {ctx ctx' : Ctx machine} (moves : Moves input ctx'.core target)
    (same : ctx'.core = ctx.core := by rfl) : Moves input ctx.core target :=
  same ▸ moves

theorem after {ctx : Ctx machine} (moves : Moves input ctx.core target)
    (first : Moves input before ctx.core) : Moves input before target :=
  first.trans moves

section

variable (ctx : Ctx machine)
include ctx

@[simp]
theorem cancelHeartbeatIf_core : (ctx.cancelHeartbeatIf wasLeader).core = ctx.core := by
  cases wasLeader <;> rfl

theorem observeTerm_moves (term : ℕ) : Moves input ctx.core (ctx.observeTerm term).1.core := by
  unfold observeTerm
  split_ifs with later
  · change Moves input ctx.core (cancelHeartbeatIf _ _).core
    rw [cancelHeartbeatIf_core]
    exact .single (.observe ctx.core term later)
  · exact .refl

theorem stepDownToFollower_moves : Moves input ctx.core ctx.stepDownToFollower.core := by
  unfold stepDownToFollower cancelHeartbeatIf
  split <;> exact .single (.stepDown ctx.core)

theorem sendSnapshotChunkTo_moves : Moves input ctx.core (ctx.sendSnapshotChunkTo peer offset).core := by
  unfold sendSnapshotChunkTo
  split
  · exact .refl
  · exact .single (.send ctx.core peer _ rfl)

private theorem sendEntriesTo_moves (peer next : ℕ) :
    Moves input ctx.core (ctx.sendEntriesTo peer next).core :=
  .single (.send ctx.core peer _ (List.drop_subset _ _))

theorem sendAppendEntriesTo_moves (peer : NodeId) :
    Moves input ctx.core (ctx.sendAppendEntriesTo peer).core := by
  unfold sendAppendEntriesTo
  cases ctx.node.storage.loadSnapshot with
  | none => exact ctx.sendEntriesTo_moves peer _
  | some snapshot =>
    dsimp only
    split
    · exact tuned (sendSnapshotChunkTo_moves _)
    · exact ctx.sendEntriesTo_moves peer _

omit ctx in
theorem foldl_moves (items : List α) (moves : ∀ ctx item, Moves input ctx.core (act ctx item).core)
    (ctx : Ctx machine) : Moves input ctx.core (items.foldl act ctx).core := by
  induction items generalizing ctx with
  | nil => exact .refl
  | cons head tail ih => exact (moves ctx head).trans (ih _)

theorem broadcastHeartbeat_moves : Moves input ctx.core ctx.broadcastHeartbeat.core :=
  foldl_moves _ sendAppendEntriesTo_moves ctx

theorem send_moves (dest : NodeId) (msg : RaftMsg) (reason : ctx.core.Sends dest msg) :
    Moves input ctx.core (ctx.send dest msg).core :=
  .single (.send ctx.core dest msg reason)

private theorem takeSnapshot_moves : Moves input ctx.core ctx.takeSnapshot.core :=
  ((Relation.ReflTransGen.single (.rebase ctx.core _ (.inl ⟨_, rfl⟩))).tail (.save _ _ _)).tail (.drop _ _)

private theorem maybeCompact_moves : Moves input ctx.core ctx.maybeCompact.core := by
  unfold maybeCompact
  split
  · exact ctx.takeSnapshot_moves
  · exact .refl

omit ctx in
/-- What follows a part that may panic moves on from where that part returned. -/
theorem map_moves {outcome : Outcome machine} {next : Ctx machine → Ctx machine}
    (first : Moves input before outcome.ctx.core) (rest : ∀ done, Moves input done.core (next done).core) :
    Moves input before (Outcome.ctx (outcome >>= fun done => pure (next done))).core := by
  cases outcome with
  | ok done => exact first.trans (rest done)
  | error stopped => exact first

omit ctx in
private theorem applyNext_moves (ctx : Ctx machine) : Moves input ctx.core (applyNext count ctx).ctx.core := by
  induction count generalizing ctx with
  | zero => exact .refl
  | succ count ih =>
    unfold applyNext
    cases ctx.node.storage.entryAt (ctx.node.lastApplied + 1) with
    | none => exact .refl
    | some entry => exact after (ih _) (.single (.apply ctx.core entry))

theorem commitTo_moves (index : ℕ) : Moves input ctx.core (ctx.commitTo index).ctx.core :=
  map_moves (after (applyNext_moves _) (.single (.commit ctx.core index))) maybeCompact_moves

private theorem stepDownIfRemoved_moves : Moves input ctx.core ctx.stepDownIfRemoved.core := by
  unfold stepDownIfRemoved
  split
  · exact ctx.stepDownToFollower_moves
  · exact .refl

theorem maybeAdvanceCommit_moves : Moves input ctx.core ctx.maybeAdvanceCommit.ctx.core := by
  unfold maybeAdvanceCommit
  split
  · dsimp only
    split
    · exact map_moves (ctx.commitTo_moves _) stepDownIfRemoved_moves
    · exact ctx.stepDownIfRemoved_moves
  · exact .refl

section

variable (now : ℕ)

private theorem takeLeadership_moves (candidate : ctx.node.role = .candidate)
    (counted : ctx.node.majority ≤ (ctx.node.votes.filter (· ∈ ctx.node.voters)).size) :
    Moves input ctx.core (ctx.takeLeadership now).core := by
  refine .single (.lead ctx.core _ candidate counted fun peer index found => ?_)
  rcases OrdMap.get?_foldl_insert _ _ _ found with ⟨-, rfl⟩ | absent
  · rfl
  · exact absurd absent nofun

theorem maybeBecomeLeader_moves : Moves input ctx.core (ctx.maybeBecomeLeader now).core := by
  unfold maybeBecomeLeader
  split_ifs with won
  · exact after (broadcastHeartbeat_moves _)
      ((ctx.takeLeadership_moves now won.1 won.2).tail (.append _ .noop (.inl rfl)))
  · exact .refl

theorem startRealElection_moves : Moves input ctx.core (ctx.startRealElection now).core := by
  refine after (maybeBecomeLeader_moves _ now) (after (foldl_moves _ ?_ _) ?_)
  · exact fun ctx peer => ctx.send_moves peer _ trivial
  · exact .single (.campaign ctx.core)

theorem maybePromotePreCandidate_moves : Moves input ctx.core (ctx.maybePromotePreCandidate now).core := by
  unfold maybePromotePreCandidate
  split
  · exact .refl
  split
  · exact .refl
  · exact tuned (startRealElection_moves _ now)

private theorem startPreVote_moves : Moves input ctx.core (ctx.startPreVote now).core := by
  refine after (maybePromotePreCandidate_moves _ now) (tuned (foldl_moves _ ?_ _))
  exact fun ctx peer => ctx.send_moves peer _ trivial

private theorem onElectionTimeout_moves : Moves input ctx.core (ctx.onElectionTimeout now).core := by
  have counted : (if ctx.node.preVotes.isSome ∧ ctx.node.preVoteRoundResponded then
      { ctx with node.failedPreVoteRounds := ctx.node.failedPreVoteRounds + 1 }
      else ctx : Ctx machine).core = ctx.core := by
    split <;> rfl
  unfold onElectionTimeout
  dsimp only
  generalize (if ctx.node.preVotes.isSome ∧ ctx.node.preVoteRoundResponded then _
    else ctx : Ctx machine) = polled at counted
  split
  · exact .refl
  split
  · exact .refl
  split
  · split
    · exact counted ▸ tuned (startRealElection_moves _ now)
    · exact counted ▸ polled.startPreVote_moves now
  · exact startRealElection_moves _ now

private theorem onRequestVote_moves (now term : ℕ) (candidate : NodeId) (lastLogIndex lastLogTerm : ℕ) :
    Moves input ctx.core (ctx.onRequestVote now term candidate lastLogIndex lastLogTerm).core := by
  unfold onRequestVote
  split
  · exact ctx.send_moves candidate _ nofun
  dsimp only
  have observed : Moves input ctx.core (ctx.observeTerm term).1.core := ctx.observeTerm_moves term
  generalize (ctx.observeTerm term).1 = seen at observed
  split
  · rename_i granted
    simp only [decide_eq_true_eq] at granted
    refine after (send_moves _ candidate _ ?_) (observed.tail (.grant seen.core candidate granted.2.1))
    exact fun _ => ⟨rfl, rfl⟩
  · rename_i refused
    exact observed.trans (seen.send_moves candidate _ fun granted => absurd granted refused)

private theorem onPreVoteResp_moves (source : NodeId) (term : ℕ) (voteGranted : Bool) :
    Moves input ctx.core (ctx.onPreVoteResp now source term voteGranted).core := by
  unfold onPreVoteResp
  split
  · exact .refl
  split
  · exact tuned (maybePromotePreCandidate_moves _ now)
  · exact .refl

private theorem recordVote_moves (voter : NodeId) (term : ℕ)
    (granted : input = .message voter (.requestVoteResp term true)) :
    Moves input ctx.core (ctx.recordVote now voter term).core := by
  unfold recordVote
  split
  · exact .refl
  rename_i current
  push Not at current
  refine after (maybeBecomeLeader_moves _ now) (.single (.tally ctx.core voter current.1 ?_))
  exact current.2 ▸ granted

private theorem onRequestVoteResp_moves (source : NodeId) (term : ℕ) (voteGranted : Bool)
    (received : input = .message source (.requestVoteResp term voteGranted)) :
    Moves input ctx.core (ctx.onRequestVoteResp now source term voteGranted).core := by
  unfold onRequestVoteResp
  have observed : Moves input ctx.core (ctx.observeTerm term).1.core := ctx.observeTerm_moves term
  generalize ctx.observeTerm term = seen at observed
  obtain ⟨seen, higher⟩ := seen
  cases higher with
  | true => exact observed
  | false =>
    dsimp only
    split
    · rename_i granted
      exact observed.trans (seen.recordVote_moves now source term (granted ▸ received))
    · exact observed

theorem followLeader_moves (leader : NodeId) : Moves input ctx.core (ctx.followLeader now leader).core := by
  unfold followLeader
  split
  · exact .refl
  · exact ctx.stepDownToFollower_moves

end

omit ctx in
/-- What is left to append is part of what arrived. -/
private theorem reconcile_subset (storage : MemStorage) (index : ℕ) (entries : List LogEntry) :
    (reconcile storage index entries).2 ⊆ entries := by
  induction entries generalizing index with
  | nil => exact List.Subset.refl _
  | cons entry rest ih =>
    unfold reconcile
    split_ifs
    · exact List.Subset.refl _
    · exact List.Subset.refl _
    · exact List.subset_cons_of_subset _ (ih _)

private theorem adoptEntries_moves (prevLogIndex : ℕ) (entries : List LogEntry)
    (carried : ∀ entry ∈ entries, input.Carries entry) :
    Moves input ctx.core (ctx.adoptEntries prevLogIndex entries).core := by
  have left := reconcile_subset ctx.node.storage (prevLogIndex + 1) entries
  have appended : ∀ cut : Ctx machine, ∀ rest ⊆ entries, Moves input cut.core
      (if rest = [] then cut else cut.write (.appendEntries rest)).core := by
    intro cut rest within
    split
    · exact .refl
    · exact .single (.extend cut.core rest fun entry member => carried entry (within member))
  have configured : ∀ ctx : Ctx machine, Moves input ctx.core ctx.recomputeConfigFromLog.core :=
    fun ctx => .single (.configure ctx.core)
  unfold adoptEntries
  generalize reconcile ctx.node.storage (prevLogIndex + 1) entries = plan at left
  obtain ⟨conflict, rest⟩ := plan
  cases conflict with
  | none =>
    dsimp only
    split
    · exact (appended ctx rest left).trans (configured _)
    · exact appended ctx rest left
  | some index =>
    have truncated : Moves input ctx.core (ctx.write (.truncateFrom index)).core :=
      .single (.truncate ctx.core index)
    dsimp only
    split
    · exact truncated.trans ((appended _ rest left).trans (configured _))
    · exact truncated.trans (appended _ rest left)

private theorem acceptEntries_moves (leader : NodeId) (prevLogIndex : ℕ) (entries : List LogEntry)
    (leaderCommit : ℕ) (carried : ∀ entry ∈ entries, input.Carries entry) : Moves input ctx.core
      (ctx.acceptEntries current leader prevLogIndex entries leaderCommit).ctx.core := by
  have adopted := ctx.adoptEntries_moves prevLogIndex entries carried
  have answered : ∀ ctx : Ctx machine, Moves input ctx.core
      (ctx.send leader (.appendEntriesResp current true (prevLogIndex + entries.length))).core :=
    fun ctx => ctx.send_moves leader _ trivial
  unfold acceptEntries
  dsimp only
  split
  · exact map_moves (adopted.trans (commitTo_moves _ _)) answered
  · exact adopted.trans (answered _)

private theorem onAppendEntries_moves (now term : ℕ) (leader : NodeId) (prevLogIndex prevLogTerm : ℕ)
    (entries : List LogEntry) (leaderCommit : ℕ) (carried : ∀ entry ∈ entries, input.Carries entry) :
    Moves input ctx.core
      (ctx.onAppendEntries now term leader prevLogIndex prevLogTerm entries leaderCommit).ctx.core := by
  have observed : Moves input ctx.core (ctx.observeTerm term).1.core := ctx.observeTerm_moves term
  unfold onAppendEntries
  dsimp only
  generalize (ctx.observeTerm term).1 = seen at observed
  split
  · exact observed.trans (seen.send_moves leader _ trivial)
  have followed := observed.trans (seen.followLeader_moves now leader)
  split
  · exact followed.trans (send_moves _ leader _ trivial)
  · exact followed.trans (acceptEntries_moves _ leader prevLogIndex entries leaderCommit carried)

theorem noteMatch_moves (acked : input.Acks peer index) :
    Moves input ctx.core (ctx.noteMatch peer index).core :=
  .single (.note ctx.core peer index acked)

private theorem onAppendEntriesResp_moves (now : ℕ) (source : NodeId) (term : ℕ) (success : Bool)
    (matchIndex : ℕ)
    (received : input = .message source (.appendEntriesResp term success matchIndex)) :
    Moves input ctx.core (ctx.onAppendEntriesResp now source term success matchIndex).ctx.core := by
  have observed : Moves input ctx.core (ctx.observeTerm term).1.core := ctx.observeTerm_moves term
  unfold onAppendEntriesResp
  generalize ctx.observeTerm term = seen at observed
  obtain ⟨seen, higher⟩ := seen
  cases higher with
  | true => exact observed
  | false =>
    dsimp only
    split
    · exact observed
    split
    · rename_i accepted
      refine observed.trans (after (maybeAdvanceCommit_moves _) (tuned (noteMatch_moves _ ?_)))
      exact .inl ⟨term, accepted ▸ received⟩
    · exact observed.trans (tuned (sendAppendEntriesTo_moves _ _))

private theorem onHeartbeatTimer_moves (now : ℕ) : Moves input ctx.core (ctx.onHeartbeatTimer now).core := by
  unfold onHeartbeatTimer
  split
  · exact .refl
  split
  · exact ctx.stepDownToFollower_moves
  · exact ctx.broadcastHeartbeat_moves

private theorem dropConflicting_moves (index term : ℕ) :
    Moves input ctx.core (ctx.dropConflicting index term).core := by
  unfold dropConflicting
  split
  · exact .refl
  · exact .single (.truncate ctx.core _)

/-- The buffer is emptied before the snapshot in it is installed; the moves empty it last, so
that the membership it brings is still accounted for when it is saved. -/
private theorem installAssembledSnapshot_moves (rx : SnapshotRx)
    (recalled : ctx.core.Recalls input (rx.voters, rx.learners)) : Moves input ctx.core
      ({ ctx with node.snapshotRx := none }.installAssembledSnapshot rx).core := by
  have dropped : Moves input ctx.core (ctx.dropConflicting rx.lastIncludedIndex rx.lastIncludedTerm).core :=
    ctx.dropConflicting_moves _ _
  have kept : (ctx.dropConflicting rx.lastIncludedIndex rx.lastIncludedTerm).core.Recalls input
      (rx.voters, rx.learners) := by
    unfold dropConflicting
    split <;> exact recalled
  have emptied : { ctx with node.snapshotRx := none }.dropConflicting rx.lastIncludedIndex
      rx.lastIncludedTerm =
        { ctx.dropConflicting rx.lastIncludedIndex rx.lastIncludedTerm with
          node.snapshotRx := none } := by
    unfold dropConflicting
    split <;> rfl
  unfold installAssembledSnapshot
  rw [emptied]
  generalize ctx.dropConflicting rx.lastIncludedIndex rx.lastIncludedTerm = cut at dropped kept
  exact (((((dropped.tail (.save cut.core ⟨rx.lastIncludedIndex, rx.lastIncludedTerm⟩
    rx.data)).tail (.drop _ rx.lastIncludedIndex)).tail (.rebase _ (rx.voters, rx.learners)
    (.inr kept))).tail (.configure _)).tail (.commit _ rx.lastIncludedIndex)).tail (.buffer _ none nofun)

omit ctx in
private theorem receiveChunk_recalls {ctx : Ctx machine} {chunk : SnapshotRx}
    (offered : input.Offers (chunk.voters, chunk.learners))
    (received : receiveChunk ctx.node.snapshotRx chunk offset = some rx) :
    ctx.core.Recalls input (rx.voters, rx.learners) := by
  unfold receiveChunk at received
  split at received
  · cases received
    exact .inl offered
  split at received
  · rename_i held same
    split at received
    · cases received
      exact .inr ⟨held, same, rfl⟩
    · exact absurd received nofun
  · exact absurd received nofun

private theorem onInstallSnapshot_moves (now term : ℕ) (leaderId : NodeId) (offset : ℕ) (done : Bool)
    (chunk : SnapshotRx) (offered : input.Offers (chunk.voters, chunk.learners)) :
    Moves input ctx.core (ctx.onInstallSnapshot now term leaderId offset done chunk).core := by
  have observed : Moves input ctx.core (ctx.observeTerm term).1.core := ctx.observeTerm_moves term
  unfold onInstallSnapshot
  dsimp only
  generalize (ctx.observeTerm term).1 = seen at observed
  split
  · exact observed.trans (seen.send_moves leaderId _ trivial)
  have followed := observed.trans (seen.followLeader_moves now leaderId)
  generalize seen.followLeader now leaderId = follower at followed
  split
  · exact followed.trans (send_moves _ leaderId _ trivial)
  rename_i rx received
  have recalled := receiveChunk_recalls offered received
  split
  · exact (followed.tail (.buffer _ (some rx) (by rintro _ ⟨⟩; exact recalled))).tail
      (.send _ leaderId _ trivial)
  refine after (send_moves _ leaderId _ trivial) (followed.trans ?_)
  split
  · exact .single (.buffer _ none nofun)
  · exact follower.installAssembledSnapshot_moves rx recalled

private theorem onInstallSnapshotResp_moves (source : NodeId) (term installedIndex : ℕ) (installed : Bool)
    (nextOffset : ℕ)
    (received : input = .message source (.installSnapshotResp term installedIndex installed nextOffset)) :
    Moves input ctx.core
      (ctx.onInstallSnapshotResp source term installedIndex installed nextOffset).ctx.core := by
  have observed : Moves input ctx.core (ctx.observeTerm term).1.core := ctx.observeTerm_moves term
  unfold onInstallSnapshotResp
  generalize ctx.observeTerm term = seen at observed
  obtain ⟨seen, higher⟩ := seen
  cases higher with
  | true => exact observed
  | false =>
    dsimp only
    split
    · exact observed
    split
    · split
      · exact observed.trans (tuned (sendSnapshotChunkTo_moves _))
      · exact observed
    rename_i accepted
    refine map_moves (observed.trans ?_) fun ctx => ctx.sendAppendEntriesTo_moves source
    refine after (maybeAdvanceCommit_moves _) (tuned (noteMatch_moves _ ?_))
    exact .inr ⟨term, nextOffset, not_not.mp accepted ▸ received⟩

private theorem trackPeers_moves : Moves input ctx.core ctx.trackPeers.core := by
  refine .single (.track ctx.core _ fun peer index found => ?_)
  rcases OrdMap.get?_foldl_insertIfAbsent _ _ _ found with ⟨-, rfl⟩ | earlier
  · exact .inl rfl
  · exact .inr earlier

private theorem appendPayload_moves (payload : EntryPayload) (proposed : input.Proposes payload) :
    Moves input ctx.core (ctx.appendPayload payload).core := by
  have appended : Moves input ctx.core (ctx.write (.append
      ⟨ctx.node.storage.currentTerm, ctx.node.storage.lastLogIndex + 1, payload⟩)).core :=
    .single (.append ctx.core payload (.inr proposed))
  unfold appendPayload
  split
  · exact after (trackPeers_moves _) (appended.tail (.configure _))
  · exact appended

theorem propose_moves (payload : EntryPayload) (proposed : input.Proposes payload) :
    Moves input ctx.core (Outcome.ctx (Prod.fst <$> ctx.propose payload)).core := by
  have advanced : Moves input ctx.core
      (ctx.appendPayload payload).broadcastHeartbeat.maybeAdvanceCommit.ctx.core :=
    after (maybeAdvanceCommit_moves _)
      ((ctx.appendPayload_moves payload proposed).trans (broadcastHeartbeat_moves _))
  unfold propose
  split
  · exact .refl
  generalize (ctx.appendPayload payload).broadcastHeartbeat.maybeAdvanceCommit = outcome at advanced
  cases outcome <;> exact advanced

private theorem onMessage_moves (now : ℕ) (source : NodeId) (msg : RaftMsg) :
    Moves (.message source msg) ctx.core (ctx.onMessage now source msg).ctx.core := by
  cases msg with
  | requestVote term candidate lastLogIndex lastLogTerm =>
    exact ctx.onRequestVote_moves now term candidate lastLogIndex lastLogTerm
  | requestVoteResp term voteGranted =>
    exact ctx.onRequestVoteResp_moves now source term voteGranted rfl
  | preVote term candidate lastLogIndex lastLogTerm =>
    exact ctx.send_moves candidate _ trivial
  | preVoteResp term voteGranted => exact ctx.onPreVoteResp_moves now source term voteGranted
  | appendEntries term leader prevLogIndex prevLogTerm entries leaderCommit =>
    exact ctx.onAppendEntries_moves now term leader prevLogIndex prevLogTerm entries
      leaderCommit fun _ member => ⟨source, term, leader, _, _, entries, _, rfl, member⟩
  | appendEntriesResp term success matchIndex =>
    exact ctx.onAppendEntriesResp_moves now source term success matchIndex rfl
  | propose payload => exact ctx.propose_moves payload (.inr ⟨source, rfl⟩)
  | forwardPropose _ _ => exact .refl
  | forwardProposeResult _ _ => exact .refl
  | installSnapshot term leaderId index snapTerm offset data done voters learners =>
    exact ctx.onInstallSnapshot_moves now term leaderId offset done ⟨index, snapTerm, voters, learners, data⟩
      ⟨source, term, leaderId, index, snapTerm, offset, data, done, rfl⟩
  | installSnapshotResp term index installed nextOffset =>
    exact ctx.onInstallSnapshotResp_moves source term index installed nextOffset rfl

private theorem onTimer_moves (now token : ℕ) : Moves input ctx.core (ctx.onTimer now token).core := by
  unfold onTimer
  split
  · exact ctx.onElectionTimeout_moves now
  split
  · exact ctx.onHeartbeatTimer_moves now
  · exact .refl

end

end Ctx

/-- Every step is a sequence of moves, also one that panics. -/
theorem RaftNode.step_moves (node : RaftNode machine) (now : ℕ) (rng : RaftRng) (input : Input) :
    Moves input (Ctx.core { node, rng }) (node.step now rng input).ctx.core := by
  cases input with
  | message source msg => exact Ctx.onMessage_moves _ now source msg
  | timer token => exact Ctx.onTimer_moves _ now token
  | propose payload => exact Ctx.propose_moves _ payload (.inl rfl)

end IronCache.Raft
