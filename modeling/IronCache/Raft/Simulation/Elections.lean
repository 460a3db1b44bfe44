import IronCache.Raft.Simulation.Base

/-!
# Elections refine the history

A real election is a campaign, a granted vote a vote, and a counted majority an election.
-/

namespace IronCache.Raft.Sim

open Consensus (Protocol Inv Extends Step Steps SameNode)

variable {machine : StateMachine} {setup : Setup machine} {compacts : Prop}
  {before history after : History} {start : RaftNode machine} {owner : NodeId} {ctx ctx' : Ctx machine}

section

variable (sim : Sim setup compacts before start owner history ctx)
include sim

theorem peers_ne : ∀ peer ∈ ctx.node.peers, peer ≠ owner := by
  intro peer member
  have := (List.mem_filter.mp member).2
  simpa [sim.node.ident] using this

omit sim in
private theorem indexed_concat (indexed : Indexed log) (index : entry.index = log.length + 1) :
    Indexed (log ++ [entry]) := by
  intro position other found
  rcases Nat.lt_or_ge position log.length with inside | outside
  · rw [List.getElem?_append_left inside] at found
    exact indexed position other found
  rw [List.getElem?_append_right outside, List.getElem?_singleton] at found
  split_ifs at found with last
  obtain rfl := Option.some.inj found
  omega

omit sim in
/-- A leader's new entry on the history: appended and confirmed by the leader itself. -/
private theorem appendOwn_steps (leading : history.role owner = .leader)
    (current : entry.term = history.term owner)
    (evidence : (protocol setup.voters).Reconfigures entry →
      (protocol setup.voters).Evidence history.commits (history.log owner) entry) :
    Steps (protocol setup.voters) owner history
      ((history.append owner entry).confirm owner ((history.log owner).length + 1)) := by
  have append : Step (protocol setup.voters) owner history (history.append owner entry) :=
    .append history entry leading current evidence
  refine .tail (.single append) (.confirm _ _ ?_ ?_)
  · simp [Consensus.State.append]
  · simp [Consensus.State.append, List.take_of_length_le]

omit sim in
private theorem appendOwn_numbered (numbered : ∀ term, Indexed (history.branch term))
    (onBranch : history.log owner = history.branch (history.term owner))
    (index : entry.index = (history.log owner).length + 1) (term : ℕ) :
    Indexed (((history.append owner entry).confirm owner length).branch term) := by
  simp only [Consensus.State.confirm, Consensus.State.append, Function.update_apply]
  split_ifs with same
  · exact indexed_concat (onBranch ▸ numbered _) index
  · exact numbered term

theorem appendOwn (leader : ctx.node.role = .leader) (current : entry.term = history.term owner)
    (index : entry.index = (history.log owner).length + 1)
    (evidence : (protocol setup.voters).Reconfigures entry →
      (protocol setup.voters).Evidence history.commits (history.log owner) entry)
    (config : (voters, learners) = members setup.voters (history.log owner ++ [entry])) :
    sim.At ((history.append owner entry).confirm owner ((history.log owner).length + 1))
      { ctx.write (.append entry) with
        node.voters := voters
        node.learners := learners } := by
  have leading : history.role owner = .leader := sim.node.role.trans (by rw [leader]; rfl)
  obtain ⟨onBranch, election, won, term⟩ := sim.node.leads sim.inv leader
  have steps : Steps (protocol setup.voters) owner history _ :=
    appendOwn_steps leading current evidence
  have grows := (sim.inv.steps steps).2
  have positive : 0 < entry.term := current.symm ▸ term ▸ sim.inv.election_positive won
  have log : ((history.append owner entry).confirm owner
      ((history.log owner).length + 1)).log owner = history.log owner ++ [entry] := by
    simp [Consensus.State.confirm, Consensus.State.append]
  have snapLe := sim.node.snapIndex_le
  have kept : ∀ index ≤ (history.log owner).length,
      (history.log owner ++ [entry]).take index = (history.log owner).take index :=
    fun index within => List.take_append_of_le_length within
  refine sim.advance steps (appendOwn_numbered sim.numbered onBranch index) ?_ rfl rfl
    (fun _ => rfl) ⟨le_rfl, le_rfl⟩ (sim.journalWrite (.append entry) (by simp))
  exact { sim.node with
    log := by
      rw [log]
      exact sim.node.log.append index positive
    config := config.trans (by rw [log])
    baseline := by
      rw [log]
      exact sim.node.baseline.trans (congrArg (members setup.voters) (kept _ snapLe).symm)
    commitLe := by
      rw [log, List.length_append]
      exact sim.node.commitLe.trans (Nat.le_add_right _ _)
    committed := by
      rw [log]
      exact (sim.node.committed.mono grows le_rfl).shorten ((kept _ sim.node.commitLe).symm ▸ List.prefix_rfl)
    tally := fun candidate => absurd (leader.symm.trans candidate) (by decide)
    matched := fun _ peer index found => by
      obtain ⟨different, copied⟩ := sim.node.matched leader peer index found
      exact ⟨different, copied.trans (grows.acks _ _)⟩
    next := fun _ peer index found => by
      obtain ⟨positive, bound⟩ := sim.node.next leader peer index found
      rw [log, List.length_append]
      exact ⟨positive, bound.trans (by simp)⟩
    ownAck := fun _ => by
      simp [Consensus.State.confirm, Consensus.State.append]
    buffer := sim.node.buffer_mono grows
    state := fun image => by
      rw [log]
      exact (kept _ (sim.node.appliedLe.trans sim.node.commitLe)).symm ▸ sim.node.state image
    data := fun positive image => by
      rw [log]
      exact (sim.node.data positive image).trans (congrArg image.bytes (kept _ snapLe).symm) }

theorem appendPlain (leader : ctx.node.role = .leader) (plain : payload.change? = none) :
    sim.Leads (ctx.write (.append
      ⟨ctx.node.storage.currentTerm, ctx.node.storage.lastLogIndex + 1, payload⟩)) := by
  let entry : LogEntry :=
    ⟨ctx.node.storage.currentTerm, ctx.node.storage.lastLogIndex + 1, payload⟩
  have keep : ¬ entry.payload.change?.isSome := by simp [entry, plain]
  have config : (ctx.node.voters, ctx.node.learners) =
      members setup.voters (history.log owner ++ [entry]) := by
    rw [members_append, List.foldl_cons, List.foldl_nil, applyEntryDelta_keep _ _ keep]
    exact sim.node.config
  exact ⟨_, sim.appendOwn leader sim.node.term (congrArg (· + 1) sim.node.log.lastIndex)
    (fun reconfigures => absurd reconfigures keep) config⟩

/-- A candidate with a majority of its voters becomes the leader of its term. -/
private theorem takeLeadership (candidate : ctx.node.role = .candidate)
    (counted : ctx.node.majority ≤ (ctx.node.votes.filter (· ∈ ctx.node.voters)).size) (now : ℕ) :
    sim.At ((history.elect owner ctx.node.votes.toFinset).confirm owner (history.log owner).length)
      (ctx.takeLeadership now) := by
  have standing : history.role owner = .candidate := sim.node.role.trans (by rw [candidate]; rfl)
  have elect : Step (protocol setup.voters) owner history (history.elect owner ctx.node.votes.toFinset) :=
    .elect history _ standing (sim.protocol_voters ▸ OrdSet.isMajority_of_filter counted)
      fun voter member => sim.node.tally candidate voter (OrdSet.mem_toFinset.mp member)
  have steps : Steps (protocol setup.voters) owner history
      ((history.elect owner ctx.node.votes.toFinset).confirm owner (history.log owner).length) := by
    refine .tail (.single elect) (.confirm _ _ le_rfl ?_)
    simp [Consensus.State.elect]
  have grows := (sim.inv.steps steps).2
  have numbered : ∀ term, Indexed ((history.elect owner ctx.node.votes.toFinset).branch term) := by
    intro term
    simp only [Consensus.State.elect, Function.update_apply]
    split_ifs with same
    · exact sim.node.log.indexed
    · exact sim.numbered term
  refine sim.advance steps numbered ?_ rfl rfl (fun _ => rfl) ⟨le_rfl, le_rfl⟩ sim.journal
  exact { sim.node with
    role := by simp [Consensus.State.confirm, Consensus.State.elect, Ctx.takeLeadership, roleOf]
    committed := sim.node.committed.mono grows le_rfl
    tally := Role.noConfusion
    matched := fun _ peer index found => by
      rcases OrdMap.get?_foldl_insert _ _ _ found with ⟨member, rfl⟩ | absent
      · exact ⟨sim.peers_ne peer member, Nat.zero_le _⟩
      · exact absurd absent (by simp)
    next := fun _ peer index found => by
      rcases OrdMap.get?_foldl_insert _ _ _ found with ⟨member, rfl⟩ | absent
      · rw [sim.node.log.lastIndex]
        exact ⟨Nat.succ_pos _, le_rfl⟩
      · exact absurd absent (by simp)
    idle := Role.noConfusion
    ownAck := fun _ => by simp [Consensus.State.confirm, Consensus.State.elect]
    buffer := sim.node.buffer_mono grows }

theorem ownBranch (leader : ctx.node.role = .leader) : OwnBranch history owner := by
  obtain ⟨onBranch, elected⟩ := sim.node.leads sim.inv leader
  refine ⟨elected, onBranch ▸ List.prefix_rfl, ?_⟩
  rw [sim.node.role, leader]
  nofun

theorem maybeBecomeLeader (now : ℕ) : sim.Leads (ctx.maybeBecomeLeader now) := by
  unfold Ctx.maybeBecomeLeader
  by_cases won : ctx.node.role = .candidate ∧
      ctx.node.majority ≤ (ctx.node.votes.filter (· ∈ ctx.node.voters)).size
  swap
  · rw [if_neg won]
    exact ⟨history, sim⟩
  rw [if_pos won]
  have elected := sim.takeLeadership won.1 won.2 now
  obtain ⟨after, appended⟩ := elected.appendPlain rfl (rfl : EntryPayload.noop.change? = none)
  exact ⟨after, (appended.broadcastHeartbeat (appended.ownBranch rfl)).setTimer _ _⟩

theorem sendAll {peers : List NodeId} (others : ∀ peer ∈ peers, peer ≠ owner)
    (genuine : ∀ peer ∈ peers, Genuine setup compacts history owner peer msg)
    (plain : msg.snapshot? = none := by rfl) :
    sim.At history (peers.foldl (fun ctx peer => ctx.send peer msg) ctx) := by
  induction peers generalizing ctx with
  | nil => exact sim
  | cons peer rest ih =>
    refine ih ?_ (fun other member => others other (.tail _ member))
      fun other member => genuine other (.tail _ member)
    exact sim.send (others peer (.head _)) (genuine peer (.head _)) plain

theorem otherVoters_ne : ∀ peer ∈ ctx.node.voters.toList.filter (· ≠ ctx.node.id), peer ≠ owner := by
  intro peer member
  have := (List.mem_filter.mp member).2
  simpa [sim.node.ident] using this

private theorem becomeCandidate : sim.At (history.campaign owner) ctx.becomeCandidate := by
  have step : Step (protocol setup.voters) owner history (history.campaign owner) := .campaign history
  have grows : Extends history (history.campaign owner) := .step sim.inv step
  refine sim.advance (.single step) sim.numbered ?_ rfl rfl (fun _ => rfl) ⟨le_rfl, le_rfl⟩
    (sim.journalBump (Nat.lt_succ_self _) _)
  exact { sim.node with
    term := by
      rw [Consensus.State.campaign_term, ← sim.node.term]
      rfl
    vote := fun candidate log cast => by
      rw [Consensus.State.campaign_term, Consensus.State.campaign_votes] at cast
      obtain ⟨rfl, -⟩ := Prod.mk.inj (Option.some.inj cast)
      exact congrArg some sim.node.ident
    role := Consensus.State.campaign_role history owner
    log := (sim.node.log.setCurrentTerm _).setVotedFor _
    committed := sim.node.committed.mono grows (grows.terms owner)
    tally := fun _ voter member => by
      obtain rfl : voter = owner := by
        simpa [Ctx.becomeCandidate, sim.node.ident] using member
      rw [Consensus.State.campaign_term]
      exact ⟨_, Consensus.State.campaign_votes history voter⟩
    matched := nofun
    next := nofun
    idle := Role.noConfusion
    ownAck := nofun
    buffer := sim.node.buffer_mono grows }

theorem startRealElection (now : ℕ) : sim.Leads (ctx.startRealElection now) := by
  refine maybeBecomeLeader (sim.becomeCandidate.sendAll sim.otherVoters_ne fun peer _ => ?_) now
  refine ⟨sim.node.ident, history.log owner, ?_, sim.node.log.lastIndex, sim.node.log.lastTerm⟩
  rw [sim.node.term]
  exact Consensus.State.campaign_campaigns history owner

theorem maybePromotePreCandidate (now : ℕ) : sim.Leads (ctx.maybePromotePreCandidate now) := by
  unfold Ctx.maybePromotePreCandidate
  split
  · exact ⟨history, sim⟩
  split
  · exact ⟨history, sim⟩
  · apply startRealElection
    exact sim.quiet { sim.node with } rfl rfl rfl rfl rfl

private theorem startPreVote (now : ℕ) : sim.Leads (ctx.startPreVote now) := by
  have polling : sim.At history
      { ctx with
        node.preVoteTerm := ctx.node.storage.currentTerm + 1
        node.preVotes := some ((∅ : NodeSet).insert ctx.node.id)
        node.preVoteRoundResponded := false } :=
    sim.quiet { sim.node with } rfl rfl rfl rfl rfl
  have genuine : ∀ peer, Genuine setup compacts history owner peer
      (.preVote (ctx.node.storage.currentTerm + 1) ctx.node.id ctx.node.storage.lastLogIndex
        ctx.node.storage.lastLogTerm) := fun _ => sim.node.ident
  have asked := polling.sendAll sim.otherVoters_ne fun peer _ => genuine peer
  exact asked.armElectionTimer.maybePromotePreCandidate now

theorem onElectionTimeout (now : ℕ) : sim.Leads (ctx.onElectionTimeout now) := by
  have counted : sim.At history (if ctx.node.preVotes.isSome ∧ ctx.node.preVoteRoundResponded then
        { ctx with node.failedPreVoteRounds := ctx.node.failedPreVoteRounds + 1 }
      else ctx) := by
    split
    · exact sim.quiet { sim.node with } rfl rfl rfl rfl rfl
    · exact sim
  unfold Ctx.onElectionTimeout
  split
  · exact ⟨history, sim⟩
  split
  · exact ⟨history, sim.armElectionTimer⟩
  split
  · dsimp only
    generalize (if ctx.node.preVotes.isSome ∧ ctx.node.preVoteRoundResponded then
        { ctx with node.failedPreVoteRounds := ctx.node.failedPreVoteRounds + 1 }
      else ctx) = polled at counted
    split
    · have fallback : sim.At history
          { polled with
            node.failedPreVoteRounds := 0
            node.preVotes := none } :=
        counted.quiet { counted.node with } rfl rfl rfl rfl rfl
      obtain ⟨after, elected⟩ := fallback.startRealElection now
      exact ⟨after, elected.armElectionTimer⟩
    · exact counted.startPreVote now
  · obtain ⟨after, elected⟩ := sim.startRealElection now
    exact ⟨after, elected.armElectionTimer⟩

private theorem upToDate (recent : ctx.node.candidateLogUpToDate log.length (lastTerm log) = true) :
    (protocol setup.voters).UpToDate log (history.log owner) := by
  unfold RaftNode.candidateLogUpToDate at recent
  rw [sim.node.log.lastIndex, sim.node.log.lastTerm] at recent
  split_ifs at recent with same
  · exact .inr ⟨same, of_decide_eq_true recent⟩
  · exact .inl (of_decide_eq_true recent)

private theorem grantVote (stood : history.campaigns candidate (history.term owner) = some log)
    (free : ctx.node.storage.votedFor = none ∨ ctx.node.storage.votedFor = some candidate)
    (recent : (protocol setup.voters).UpToDate log (history.log owner)) :
    ∃ after, sim.At after (ctx.write (.setVotedFor (some candidate))) ∧
      ∃ own, after.votes owner (history.term owner) = some (candidate, own) := by
  have journal : sim.Logs (ctx.write (.setVotedFor (some candidate))) := sim.journalWrite _ (by simp)
  cases cast : history.votes owner (history.term owner) with
  | none =>
    have step : Step (protocol setup.voters) owner history (history.castVote owner candidate) :=
      .vote history candidate log stood cast recent
    have grows : Extends history (history.castVote owner candidate) := .step sim.inv step
    refine ⟨history.castVote owner candidate, ?_, history.log owner, ?_⟩
    · refine sim.advance (.single step) sim.numbered ?_ rfl rfl (fun _ => rfl) ⟨le_rfl, le_rfl⟩ journal
      exact { sim.node with
        vote := fun other own voted => by
          have recorded : (history.castVote owner candidate).votes owner (history.term owner) =
              some (candidate, history.log owner) := by
            simp [Consensus.State.castVote]
          obtain ⟨rfl, -⟩ := Prod.mk.inj (Option.some.inj (recorded.symm.trans voted))
          rfl
        log := sim.node.log.setVotedFor _
        tally := fun candidacy voter member => by
          obtain ⟨own, voted⟩ := sim.node.tally candidacy voter member
          exact ⟨own, grows.votes _ _ _ voted⟩
        buffer := sim.node.buffer_mono grows }
    · simp [Consensus.State.castVote]
  | some vote =>
    obtain ⟨other, own⟩ := vote
    have held := sim.node.vote other own cast
    obtain rfl : other = candidate := by
      rcases free with none | same
      · exact absurd (held.symm.trans none) (Option.some_ne_none _)
      · exact Option.some.inj (held.symm.trans same)
    refine ⟨history, ?_, own, cast⟩
    exact { sim with
      node := { sim.node with
        vote := fun choice log voted => by
          obtain ⟨rfl, -⟩ := Prod.mk.inj (Option.some.inj (cast.symm.trans voted))
          rfl
        log := sim.node.log.setVotedFor _ }
      journal := journal }

private theorem answerVote (different : candidate ≠ owner)
    (stood : term = history.term owner → ∃ log,
      history.campaigns candidate (history.term owner) = some log ∧ lastLogIndex = log.length ∧
      lastLogTerm = lastTerm log)
    (reached : term ≤ ctx.node.storage.currentTerm) (grant : Bool)
    (granted : grant = true → ¬ term < ctx.node.storage.currentTerm ∧
      (ctx.node.storage.votedFor = none ∨ ctx.node.storage.votedFor = some candidate) ∧
      ctx.node.candidateLogUpToDate lastLogIndex lastLogTerm)
    (voted : Ctx machine)
    (result : voted = if grant then (ctx.write (.setVotedFor (some candidate))).armElectionTimer else ctx) :
    sim.Leads (voted.send candidate (.requestVoteResp voted.node.storage.currentTerm grant)) := by
  cases grant with
  | false =>
    subst result
    exact ⟨history, sim.send different nofun⟩
  | true =>
    subst result
    obtain ⟨notStale, free, recent⟩ := granted rfl
    have current : term = history.term owner := by
      rw [← sim.node.term]
      omega
    obtain ⟨log, campaign, rfl, rfl⟩ := stood current
    obtain ⟨after, granted, own, recorded⟩ := sim.grantVote campaign free (sim.upToDate recent)
    refine ⟨after, granted.armElectionTimer.send different fun _ => ⟨own, ?_⟩⟩
    have term : ctx.node.storage.currentTerm = history.term owner := sim.node.term
    exact term ▸ recorded

theorem onRequestVote (different : source ≠ owner)
    (genuine : Genuine setup compacts before source owner
      (.requestVote term candidate lastLogIndex lastLogTerm))
    (now : ℕ) : sim.Leads (ctx.onRequestVote now term candidate lastLogIndex lastLogTerm) := by
  obtain ⟨rfl, log, stood, index, lastTerm⟩ := genuine
  unfold Ctx.onRequestVote
  split
  · exact ⟨history, sim.send different fun granted => by cases granted⟩
  obtain ⟨middle, observed⟩ := sim.observeTerm term
  refine observed.answerVote different (fun current => ⟨log, ?_, index, lastTerm⟩) ?_ _
    (fun granted => of_decide_eq_true granted) _ rfl
  · exact current ▸ observed.grows.campaigns _ _ _ stood
  · rw [ctx.observeTerm_currentTerm term]
    exact le_max_right _ _

theorem onPreVote (different : source ≠ owner)
    (genuine : Genuine setup compacts before source owner (.preVote term candidate lastLogIndex lastLogTerm))
    (now : ℕ) : sim.At history (ctx.onPreVote now term candidate lastLogIndex lastLogTerm) := by
  obtain rfl : candidate = source := genuine
  exact sim.send different trivial

theorem onPreVoteResp (now source term : ℕ) (voteGranted : Bool) :
    sim.Leads (ctx.onPreVoteResp now source term voteGranted) := by
  unfold Ctx.onPreVoteResp
  split
  · exact ⟨history, sim⟩
  split
  · apply maybePromotePreCandidate
    exact sim.quiet { sim.node with } rfl rfl rfl rfl rfl
  · exact ⟨history, sim.quiet { sim.node with } rfl rfl rfl rfl rfl⟩

private theorem recordVote (granted : ∃ log, history.votes voter term = some (owner, log)) (now : ℕ) :
    sim.Leads (ctx.recordVote now voter term) := by
  unfold Ctx.recordVote
  by_cases ignored : ctx.node.role ≠ .candidate ∨ term ≠ ctx.node.storage.currentTerm
  · rw [if_pos ignored]
    exact ⟨history, sim⟩
  rw [if_neg ignored]
  push Not at ignored
  apply maybeBecomeLeader
  refine sim.quiet { sim.node with
    tally := fun _ other member => ?_ } rfl rfl rfl rfl rfl
  rcases OrdSet.mem_insert.mp member with rfl | earlier
  · rw [← sim.node.term, ← ignored.2]
    exact granted
  · exact sim.node.tally ignored.1 other earlier

theorem onRequestVoteResp
    (genuine : Genuine setup compacts before source owner (.requestVoteResp term voteGranted)) (now : ℕ) :
    sim.Leads (ctx.onRequestVoteResp now source term voteGranted) := by
  unfold Ctx.onRequestVoteResp
  by_cases later : ctx.node.storage.currentTerm < term
  · rw [ctx.observeTerm_of_lt later]
    exact sim.observeTerm term
  rw [ctx.observeTerm_of_le (not_lt.mp later)]
  dsimp only
  split
  · rename_i granted
    obtain ⟨log, cast⟩ := genuine granted
    exact sim.recordVote ⟨log, sim.grows.votes _ _ _ cast⟩ now
  · exact ⟨history, sim⟩

end

end IronCache.Raft.Sim
