import IronCache.Raft.Node

/-!
# The handlers of the Raft engine
-/

namespace IronCache.Raft.Ctx

variable {machine : StateMachine}

section

variable (ctx : Ctx machine)

def cancelHeartbeatIf (wasLeader : Bool) : Ctx machine :=
  if wasLeader then ctx.cancelTimer heartbeat else ctx

/-- Adopt a higher term, as a follower that has not voted in it. The flag says whether
the term was adopted. -/
def observeTerm (term : ℕ) : Ctx machine × Bool :=
  if ctx.node.storage.currentTerm < term then
    let persisted := (ctx.write (.setCurrentTerm term)).write (.setVotedFor none)
    let stepped : Ctx machine :=
      { persisted with
        node.role := .follower
        node.votes := ∅
        node.preVotes := none
        node.quorumContact := ∅
        node.failedPreVoteRounds := 0
        node.leaderId := none
        node.nextIndex := ∅
        node.matchIndex := ∅
        node.snapshotNextOffset := ∅ }
    ((stepped.cancelHeartbeatIf (ctx.node.role = .leader)).armElectionTimer, true)
  else (ctx, false)

/-- A leader stops its heartbeat. -/
def stepDownToFollower : Ctx machine :=
  let cancelled := ctx.cancelHeartbeatIf (ctx.node.role = .leader)
  { cancelled with
    node.role := .follower
    node.votes := ∅
    node.nextIndex := ∅
    node.matchIndex := ∅
    node.snapshotNextOffset := ∅
    node.quorumContact := ∅ }

/-- Without a snapshot there is nothing to send. -/
def sendSnapshotChunkTo (peer offset : ℕ) : Ctx machine :=
  match ctx.node.storage.loadSnapshot with
  | none => { ctx with node.snapshotNextOffset := ctx.node.snapshotNextOffset.erase peer }
  | some (snapshot, data) =>
    let members := ctx.node.storage.loadConfigBaseline.getD (∅, ∅)
    let total := data.length
    let start := min offset total
    let chunkCap :=
      if ctx.node.config.snapshotChunkBytes = 0 then total
      else ctx.node.config.snapshotChunkBytes
    let stop := min (start + chunkCap) total
    { ctx with shipped := ctx.shipped ++ [ctx.node.storage] }.send peer
      (.installSnapshot ctx.node.storage.currentTerm ctx.node.id
        snapshot.lastIncludedIndex snapshot.lastIncludedTerm start
        ((data.take stop).drop start) (total ≤ stop) members.1 members.2)

/-- The log of the leader from the next index of the peer. -/
def sendEntriesTo (peer next : ℕ) : Ctx machine :=
  { ctx with node.snapshotNextOffset := ctx.node.snapshotNextOffset.erase peer }.send peer
    (.appendEntries ctx.node.storage.currentTerm ctx.node.id (next - 1)
      (ctx.node.storage.termAt (next - 1)) (ctx.node.storage.entriesFrom next)
      ctx.node.commitIndex)

/-- Send a peer what it needs next: a snapshot chunk if it is behind the compaction point,
log entries otherwise. -/
def sendAppendEntriesTo (peer : NodeId) : Ctx machine :=
  let next := (ctx.node.nextIndex.get? peer).getD 1
  match ctx.node.storage.loadSnapshot with
  | some (snapshot, _) =>
    if next ≤ snapshot.lastIncludedIndex then
      let offset := (ctx.node.snapshotNextOffset.get? peer).getD 0
      { ctx with
        node.snapshotNextOffset := ctx.node.snapshotNextOffset.insert peer offset
      }.sendSnapshotChunkTo peer offset
    else ctx.sendEntriesTo peer next
  | none => ctx.sendEntriesTo peer next

def broadcastHeartbeat : Ctx machine :=
  ctx.node.peers.foldl sendAppendEntriesTo ctx

/-- Whether the applied part of the log has outgrown the threshold. -/
def compactionDue (node : RaftNode machine) : Bool :=
  let threshold := node.config.snapshotThreshold
  let snapIndex := node.storage.loadSnapshot.elim 0 (·.1.lastIncludedIndex)
  threshold ≠ 0 ∧ snapIndex < node.lastApplied ∧ threshold < node.lastApplied - snapIndex

/-- Save the membership and the state machine as of the last applied entry, and drop the log
up to it. -/
def takeSnapshot : Ctx machine :=
  let baseline := ctx.node.configAt ctx.node.lastApplied
  let saved := ctx.write (.saveConfigBaseline baseline.1 baseline.2)
  let based : Ctx machine := { saved with node.configBaseline := baseline }
  (based.write (.saveSnapshot ⟨ctx.node.lastApplied, ctx.node.storage.termAt ctx.node.lastApplied⟩
    (machine.snapshot ctx.node.sm))).write (.compactTo ctx.node.lastApplied)

def maybeCompact : Ctx machine :=
  if compactionDue ctx.node then ctx.takeSnapshot else ctx

/-- Apply a number of entries above the last applied one; a missing entry is a panic. -/
def applyNext : ℕ → Ctx machine → Outcome machine
  | 0, ctx => .ok ctx
  | count + 1, ctx =>
    match ctx.node.storage.entryAt (ctx.node.lastApplied + 1) with
    | none => .error ctx
    | some entry =>
      applyNext count
        { ctx with
          node.lastApplied := ctx.node.lastApplied + 1
          node.sm := machine.apply ctx.node.sm entry
          applied := ctx.applied ++ [entry] }

/-- Applies up to the commit index, then compacts. -/
def applyCommitted : Outcome machine := do
  let applied ← applyNext (ctx.node.commitIndex - ctx.node.lastApplied) ctx
  return applied.maybeCompact

def commitTo (index : ℕ) : Outcome machine :=
  applyCommitted ({ ctx with node.commitIndex := index }.noteCommittedThrough index)

/-- A leader that its own committed configuration no longer contains steps down. -/
def stepDownIfRemoved : Ctx machine :=
  if ctx.node.role = .leader ∧ ¬ ctx.node.committedConfigContainsSelf then
    ctx.stepDownToFollower.armElectionTimerNow
  else ctx

/-- Only a leader counts the matches. -/
def maybeAdvanceCommit : Outcome machine := do
  if ctx.node.role = .leader then
    let newCommit := ctx.node.highestCommittable ctx.node.storage.lastLogIndex
    let committed ← if ctx.node.commitIndex < newCommit then ctx.commitTo newCommit else pure ctx
    return committed.stepDownIfRemoved
  else return ctx

variable (now : ℕ)

/-- Take the leader role: every peer is assumed caught up and heard from until it answers. -/
def takeLeadership : Ctx machine :=
  { ctx.cancelTimer electionTimeout with
    node.role := .leader
    node.leaderId := some ctx.node.id
    node.failedPreVoteRounds := 0
    node.nextIndex := ctx.node.peers.foldl (·.insert · (ctx.node.storage.lastLogIndex + 1)) ∅
    node.matchIndex := ctx.node.peers.foldl (·.insert · 0) ∅
    node.snapshotNextOffset := ∅
    node.quorumContact := ctx.node.voters.toList.foldl (·.insert · now) ∅ }

/-- A leader begins with an entry of its own term. -/
def maybeBecomeLeader : Ctx machine :=
  if ctx.node.role = .candidate ∧ ctx.node.majority ≤ (ctx.node.votes.filter (· ∈ ctx.node.voters)).size then
    let elected := ctx.takeLeadership now
    let appended := elected.write (.append
      ⟨ctx.node.storage.currentTerm, ctx.node.storage.lastLogIndex + 1, .noop⟩)
    appended.broadcastHeartbeat.setTimer heartbeat ctx.node.config.heartbeatInterval
  else ctx

/-- Enter the next term as a candidate that has voted for itself. -/
def becomeCandidate : Ctx machine :=
  let persisted := (ctx.write (.setCurrentTerm (ctx.node.storage.currentTerm + 1))).write
    (.setVotedFor (some ctx.node.id))
  { persisted with
    node.role := .candidate
    node.votes := (∅ : NodeSet).insert ctx.node.id
    node.preVotes := none
    node.leaderId := none }

/-- The candidate asks the other voters. -/
def startRealElection : Ctx machine :=
  let request : RaftMsg :=
    .requestVote (ctx.node.storage.currentTerm + 1) ctx.node.id
      ctx.node.storage.lastLogIndex ctx.node.storage.lastLogTerm
  let asked := (ctx.node.voters.toList.filter (· ≠ ctx.node.id)).foldl (·.send · request) ctx.becomeCandidate
  asked.maybeBecomeLeader now

/-- A majority of pre-votes starts the election. -/
def maybePromotePreCandidate : Ctx machine :=
  match ctx.node.preVotes with
  | none => ctx
  | some tally =>
    if (tally.filter (· ∈ ctx.node.voters)).size < ctx.node.majority then ctx
    else
      { ctx with
        node.failedPreVoteRounds := 0
        node.preVotes := none }.startRealElection now

/-- The term of the node is not raised yet. -/
def startPreVote : Ctx machine :=
  let preTerm := ctx.node.storage.currentTerm + 1
  let polling : Ctx machine :=
    { ctx with
      node.preVoteTerm := preTerm
      node.preVotes := some ((∅ : NodeSet).insert ctx.node.id)
      node.preVoteRoundResponded := false }
  let request : RaftMsg :=
    .preVote preTerm ctx.node.id ctx.node.storage.lastLogIndex ctx.node.storage.lastLogTerm
  let asked := (ctx.node.voters.toList.filter (· ≠ ctx.node.id)).foldl (·.send · request) polling
  asked.armElectionTimer.maybePromotePreCandidate now

/-- A node outside the voters only waits again. -/
def onElectionTimeout : Ctx machine :=
  if ctx.node.role = .leader then ctx
  else if ctx.node.id ∉ ctx.node.voters then ctx.armElectionTimer
  else if ctx.node.config.preVote then
    let counted : Ctx machine :=
      if ctx.node.preVotes.isSome ∧ ctx.node.preVoteRoundResponded then
        { ctx with node.failedPreVoteRounds := ctx.node.failedPreVoteRounds + 1 }
      else ctx
    if preVoteFallbackRounds ≤ counted.node.failedPreVoteRounds then
      ({ counted with
        node.failedPreVoteRounds := 0
        node.preVotes := none }.startRealElection now).armElectionTimer
    else counted.startPreVote now
  else (ctx.startRealElection now).armElectionTimer

def onRequestVote (now term : ℕ) (candidate : NodeId) (lastLogIndex lastLogTerm : ℕ) : Ctx machine :=
  -- A follower that has just heard from a leader does not even look at the term.
  if ctx.node.config.preVote ∧ ctx.node.leaderIsFresh now then
    ctx.send candidate (.requestVoteResp ctx.node.storage.currentTerm false)
  else
    let observed := (ctx.observeTerm term).1
    let vote := observed.node.storage.votedFor
    let grant : Bool :=
      ¬ term < observed.node.storage.currentTerm ∧ (vote = none ∨ vote = some candidate) ∧
        observed.node.candidateLogUpToDate lastLogIndex lastLogTerm
    let voted :=
      if grant then (observed.write (.setVotedFor (some candidate))).armElectionTimer
      else observed
    voted.send candidate (.requestVoteResp voted.node.storage.currentTerm grant)

/-- A pre-vote binds nobody: nothing is written. -/
def onPreVote (now term : ℕ) (candidate : NodeId) (lastLogIndex lastLogTerm : ℕ) : Ctx machine :=
  let grant : Bool :=
    ctx.node.storage.currentTerm < term ∧
      ctx.node.candidateLogUpToDate lastLogIndex lastLogTerm ∧ ¬ ctx.node.leaderIsFresh now
  ctx.send candidate (.preVoteResp term grant)

/-- An answer of an earlier round is dropped. -/
def onPreVoteResp (source : NodeId) (term : ℕ) (voteGranted : Bool) : Ctx machine :=
  if ctx.node.preVotes.isNone ∨ term ≠ ctx.node.preVoteTerm then ctx
  else
    let responded : Ctx machine := { ctx with node.preVoteRoundResponded := true }
    if voteGranted then
      { responded with
        node.preVotes := ctx.node.preVotes.map (OrdSet.insert source)
      }.maybePromotePreCandidate now
    else responded

/-- A vote of another term is dropped. -/
def recordVote (voter : NodeId) (term : ℕ) : Ctx machine :=
  if ctx.node.role ≠ .candidate ∨ term ≠ ctx.node.storage.currentTerm then ctx
  else { ctx with node.votes := ctx.node.votes.insert voter }.maybeBecomeLeader now

def onRequestVoteResp (source : NodeId) (term : ℕ) (voteGranted : Bool) : Ctx machine :=
  match ctx.observeTerm term with
  | (observed, true) => observed
  | (observed, false) =>
    if voteGranted then observed.recordVote now source term else observed

/-- The node has heard of the leader of its term. -/
def followLeader (leader : NodeId) : Ctx machine :=
  let stepped := if ctx.node.role = .follower then ctx else ctx.stepDownToFollower
  let armed := stepped.armElectionTimer
  { armed with
    node.leaderId := some leader
    node.lastLeaderContact := some now
    node.preVotes := none
    node.failedPreVoteRounds := 0 }

/-- Compare a leader's entries with the log from an index on: the index to truncate at,
if one conflicts, and the entries still to append. -/
def reconcile (storage : MemStorage) : ℕ → List LogEntry → Option ℕ × List LogEntry
  | _, [] => (none, [])
  | index, entry :: rest =>
    if storage.termAt index = 0 then (none, entry :: rest)
    else if storage.termAt index ≠ entry.term then (some index, entry :: rest)
    else reconcile storage (index + 1) rest

/-- Bring the log in line with a leader's entries, and the membership with the log. -/
def adoptEntries (prevLogIndex : ℕ) (entries : List LogEntry) :
    Ctx machine :=
  let plan := reconcile ctx.node.storage (prevLogIndex + 1) entries
  let truncated :=
    match plan.1 with
    | some index => ctx.write (.truncateFrom index)
    | none => ctx
  let appended :=
    if plan.2 = [] then truncated else truncated.write (.appendEntries plan.2)
  if plan.1.isSome ∨ plan.2 ≠ [] then appended.recomputeConfigFromLog else appended

/-- Take over entries that passed the consistency check, follow the leader's commit index as
far as they reach, and confirm them. -/
def acceptEntries (current : ℕ) (leader : NodeId) (prevLogIndex : ℕ)
    (entries : List LogEntry) (leaderCommit : ℕ) : Outcome machine := do
  let adopted := ctx.adoptEntries prevLogIndex entries
  let lastNewIndex := prevLogIndex + entries.length
  let newCommit := min leaderCommit lastNewIndex
  let committed ← if adopted.node.commitIndex < leaderCommit ∧ adopted.node.commitIndex < newCommit then
      adopted.commitTo newCommit
    else pure adopted
  return committed.send leader (.appendEntriesResp current true lastNewIndex)

def onAppendEntries (now term : ℕ) (leader : NodeId)
    (prevLogIndex prevLogTerm : ℕ) (entries : List LogEntry) (leaderCommit : ℕ) :
    Outcome machine :=
  let observed := (ctx.observeTerm term).1
  let current := observed.node.storage.currentTerm
  if term < current then
    .ok (observed.send leader (.appendEntriesResp current false observed.node.storage.lastLogIndex))
  else
    let followed := observed.followLeader now leader
    if followed.node.storage.termAt prevLogIndex ≠ prevLogTerm then
      .ok (followed.send leader (.appendEntriesResp current false followed.node.storage.lastLogIndex))
    else followed.acceptEntries current leader prevLogIndex entries leaderCommit

/-- What the peer has matched never goes back. -/
def noteMatch (peer index : ℕ) : Ctx machine :=
  let matched := max ((ctx.node.matchIndex.get? peer).getD 0) index
  { ctx with
    node.matchIndex := ctx.node.matchIndex.insert peer matched
    node.nextIndex := ctx.node.nextIndex.insert peer (matched + 1) }

def onAppendEntriesResp (source : NodeId) (term : ℕ) (success : Bool) (matchIndex : ℕ) : Outcome machine := do
  match ctx.observeTerm term with
  | (observed, true) => return observed
  | (observed, false) =>
    if observed.node.role ≠ .leader ∨ term ≠ observed.node.storage.currentTerm then
      return observed
    else if success then
      ({ observed with
        node.quorumContact := observed.node.quorumContact.insert source now
      }.noteMatch source matchIndex).maybeAdvanceCommit
    else
      let next := (observed.node.nextIndex.get? source).getD 1
      return { observed with
        node.nextIndex := observed.node.nextIndex.insert source
          (if 1 < next then next - 1 else next) }.sendAppendEntriesTo source

/-- A leader that has lost its quorum steps down. -/
def onHeartbeatTimer : Ctx machine :=
  if ctx.node.role ≠ .leader then ctx
  else if ctx.node.config.checkQuorum ∧ ¬ ctx.node.hasQuorumContact now then
    { ctx.stepDownToFollower with node.leaderId := none }.armElectionTimer
  else ctx.broadcastHeartbeat.setTimer heartbeat ctx.node.config.heartbeatInterval

/-- Drop the whole log unless it contains a snapshot's last entry. -/
def dropConflicting (index term : ℕ) : Ctx machine :=
  if ctx.node.storage.termAt index = term then ctx
  else ctx.write (.truncateFrom ctx.node.storage.logStartIndex)

/-- Replace the state machine, the log prefix and the membership by a snapshot's. -/
def installAssembledSnapshot (rx : SnapshotRx) : Ctx machine :=
  let truncated := ctx.dropConflicting rx.lastIncludedIndex rx.lastIncludedTerm
  let saved :=
    truncated.write (.saveSnapshot ⟨rx.lastIncludedIndex, rx.lastIncludedTerm⟩ rx.data)
  let compacted := saved.write (.compactTo rx.lastIncludedIndex)
  let restored : Ctx machine :=
    { compacted with
      node.sm := machine.restore compacted.node.sm rx.data
      node.configBaseline := (rx.voters, rx.learners) }
  let configured :=
    (restored.write (.saveConfigBaseline rx.voters rx.learners)).recomputeConfigFromLog
  { configured with
    node.commitIndex := rx.lastIncludedIndex
    node.lastApplied := rx.lastIncludedIndex }.noteCommittedThrough rx.lastIncludedIndex

/-- Add a chunk to the reassembly buffer: a first chunk starts it afresh, a later one must
continue the same snapshot exactly where the buffer ends. -/
def receiveChunk (buffer : Option SnapshotRx) (chunk : SnapshotRx) (offset : ℕ) :
    Option SnapshotRx :=
  if offset = 0 then some chunk
  else
    match buffer with
    | some rx =>
      if rx.lastIncludedIndex = chunk.lastIncludedIndex ∧
          rx.lastIncludedTerm = chunk.lastIncludedTerm ∧ offset = rx.data.length then
        some { rx with data := rx.data ++ chunk.data }
      else none
    | none => none

/-- A chunk of another snapshot starts again. -/
def expectedOffset (buffer : Option SnapshotRx) (index term : ℕ) : ℕ :=
  match buffer with
  | some rx =>
    if rx.lastIncludedIndex = index ∧ rx.lastIncludedTerm = term then rx.data.length else 0
  | none => 0

def onInstallSnapshot (now term : ℕ) (leaderId : NodeId)
    (offset : ℕ) (done : Bool) (chunk : SnapshotRx) : Ctx machine :=
  let observed := (ctx.observeTerm term).1
  let current := observed.node.storage.currentTerm
  if term < current then
    observed.send leaderId (.installSnapshotResp current chunk.lastIncludedIndex false 0)
  else
    let followed := observed.followLeader now leaderId
    match receiveChunk followed.node.snapshotRx chunk offset with
    | none =>
      followed.send leaderId (.installSnapshotResp current chunk.lastIncludedIndex false
        (expectedOffset followed.node.snapshotRx chunk.lastIncludedIndex chunk.lastIncludedTerm))
    | some rx =>
      if ¬ done then
        { followed with node.snapshotRx := some rx }.send leaderId
          (.installSnapshotResp current chunk.lastIncludedIndex false rx.data.length)
      else
        let taken : Ctx machine := { followed with node.snapshotRx := none }
        let settled :=
          if rx.lastIncludedIndex ≤ taken.node.commitIndex then taken
          else taken.installAssembledSnapshot rx
        settled.send leaderId (.installSnapshotResp current rx.lastIncludedIndex true 0)

def onInstallSnapshotResp (source : NodeId) (term installedIndex : ℕ)
    (installed : Bool) (nextOffset : ℕ) : Outcome machine := do
  match ctx.observeTerm term with
  | (observed, true) => return observed
  | (observed, false) =>
    if observed.node.role ≠ .leader ∨ term ≠ observed.node.storage.currentTerm then
      return observed
    else if ¬ installed then
      if (observed.node.snapshotNextOffset.get? source).isSome then
        return { observed with
          node.snapshotNextOffset := observed.node.snapshotNextOffset.insert source nextOffset
        }.sendSnapshotChunkTo source nextOffset
      else return observed
    else
      let committed ← ({ observed with
        node.snapshotNextOffset := observed.node.snapshotNextOffset.erase source
      }.noteMatch source installedIndex).maybeAdvanceCommit
      return committed.sendAppendEntriesTo source

/-- A new peer starts behind the end of the log. -/
def trackPeers : Ctx machine :=
  let next := ctx.node.storage.lastLogIndex + 1
  { ctx with
    node.nextIndex := ctx.node.peers.foldl (·.insertIfAbsent · next) ctx.node.nextIndex
    node.matchIndex := ctx.node.peers.foldl (·.insertIfAbsent · 0) ctx.node.matchIndex }

/-- Append a payload to the leader's own log; a membership change takes effect at once. -/
def appendPayload (payload : EntryPayload) : Ctx machine :=
  let appended := ctx.write (.append
    ⟨ctx.node.storage.currentTerm, ctx.node.storage.lastLogIndex + 1, payload⟩)
  if payload.change?.isSome then appended.recomputeConfigFromLog.trackPeers else appended

/-- A second membership change waits for the first to commit. -/
def propose (payload : EntryPayload) : Except (Ctx machine) (Ctx machine × Option ℕ) :=
  if ctx.node.role ≠ .leader ∨ payload.change?.isSome ∧ ctx.node.membershipChangeInFlight then .ok (ctx, none)
  else do
    let committed ← (ctx.appendPayload payload).broadcastHeartbeat.maybeAdvanceCommit
    return (committed, some (ctx.node.storage.lastLogIndex + 1))

end

def onMessage (ctx : Ctx machine) (now : ℕ) (source : NodeId) : RaftMsg → Outcome machine
  | .requestVote term candidate lastLogIndex lastLogTerm =>
    .ok (ctx.onRequestVote now term candidate lastLogIndex lastLogTerm)
  | .requestVoteResp term voteGranted => .ok (ctx.onRequestVoteResp now source term voteGranted)
  | .preVote term candidate lastLogIndex lastLogTerm =>
    .ok (ctx.onPreVote now term candidate lastLogIndex lastLogTerm)
  | .preVoteResp term voteGranted => .ok (ctx.onPreVoteResp now source term voteGranted)
  | .appendEntries term leader prevLogIndex prevLogTerm entries leaderCommit =>
    ctx.onAppendEntries now term leader prevLogIndex prevLogTerm entries leaderCommit
  | .appendEntriesResp term success matchIndex =>
    ctx.onAppendEntriesResp now source term success matchIndex
  | .propose payload => Prod.fst <$> ctx.propose payload
  -- The forwarding pair is handled by the adapter around the engine.
  | .forwardPropose _ _ => .ok ctx
  | .forwardProposeResult _ _ => .ok ctx
  | .installSnapshot term leaderId lastIncludedIndex lastIncludedTerm offset data done voters learners =>
      .ok (ctx.onInstallSnapshot now term leaderId offset done
        ⟨lastIncludedIndex, lastIncludedTerm, voters, learners, data⟩)
  | .installSnapshotResp term lastIncludedIndex installed nextOffset =>
    ctx.onInstallSnapshotResp source term lastIncludedIndex installed nextOffset

/-- A token of no timer does nothing. -/
def onTimer (ctx : Ctx machine) (now token : ℕ) : Ctx machine :=
  if token = electionTimeout then ctx.onElectionTimeout now
  else if token = heartbeat then ctx.onHeartbeatTimer now
  else ctx

end IronCache.Raft.Ctx
