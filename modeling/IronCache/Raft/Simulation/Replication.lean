import IronCache.Raft.Simulation.Elections

/-!
# Replication refines the history

A follower that accepts a leader's entries takes over a prefix of the leader's branch.
-/

namespace IronCache.Raft

open Consensus (Protocol Inv Extends Step Steps SameNode Rooted Adopts)

variable {machine : StateMachine}

/-- What comparing a leader's entries with a log can end in: all of them are there, or the
log agrees up to some entry and then ends or conflicts. -/
inductive Reconciled (log before entries : List LogEntry) : Option ℕ × List LogEntry → Prop where
  | present (found : before ++ entries <+: log) : Reconciled log before entries (none, [])
  | ended (front back : List LogEntry) (split : entries = front ++ back) (more : back ≠ [])
      (whole : log = before ++ front) : Reconciled log before entries (none, back)
  | conflict (front back : List LogEntry) (entry : LogEntry) (split : entries = front ++ entry :: back)
      (agrees : before ++ front <+: log) (differs : ¬ before ++ front ++ [entry] <+: log) :
      Reconciled log before entries (some ((before ++ front).length + 1), entry :: back)

theorem Reconciled.cons (rest : Reconciled log (before ++ [entry]) entries plan) :
    Reconciled log before (entry :: entries) plan := by
  cases rest with
  | present found => exact .present (by simpa using found)
  | ended front back split more whole =>
    exact .ended (entry :: front) back (by simp [split]) more (by simpa using whole)
  | conflict front back entry' split agrees differs =>
    have shift : before ++ [entry] ++ front = before ++ (entry :: front) := by simp
    rw [shift] at agrees differs ⊢
    exact .conflict (entry :: front) back entry' (by simp [split]) agrees differs

variable {setup : Setup machine} {history : History} {storage : MemStorage}

/-- An index the storage has a term for lies between the snapshot and the end of the log. -/
theorem Represents.bounds_of_termAt (view : Represents storage log)
    (some : storage.termAt index ≠ 0) : storage.snapIndex ≤ index ∧ index ≤ log.length := by
  by_contra outside
  exact some (view.termAt_none (by omega))

private theorem reconcile_spec (view : Represents storage log)
    (rooted : Rooted (protocol setup.voters) history log)
    (rooted' : Rooted (protocol setup.voters) history (before ++ entries)) (agrees : before <+: log)
    (above : entries ≠ [] → storage.snapIndex ≤ before.length + 1) :
    Reconciled log before entries (Ctx.reconcile storage (before.length + 1) entries) := by
  induction entries generalizing before with
  | nil => exact .present (by simpa using agrees)
  | cons entry rest ih =>
    have below := above (List.cons_ne_nil _ _)
    rcases Nat.lt_or_ge before.length log.length with inside | ended
    swap
    · have missing : storage.termAt (before.length + 1) = 0 := view.termAt_none (by omega)
      have whole : log = before ++ [] := by
        rw [List.append_nil]
        exact (agrees.eq_of_length_le ended).symm
      rw [Ctx.reconcile, if_pos missing]
      exact .ended [] (entry :: rest) rfl (List.cons_ne_nil _ _) whole
    have found : log[before.length]? = some log[before.length] := List.getElem?_eq_getElem inside
    have split : log.take (before.length + 1) = before ++ [log[before.length]] := by
      rw [List.take_add_one, found, ← List.prefix_iff_eq_take.mp agrees]
      rfl
    have inLog : before ++ [log[before.length]] <+: log := split ▸ List.take_prefix _ _
    have read : storage.termAt (before.length + 1) = log[before.length].term := by
      rw [view.termAt below inside, lastTerm_take_succ found]
    have positive := view.positive _ (List.getElem_mem inside)
    rw [Ctx.reconcile, read, if_neg (by omega)]
    have inEntries : before ++ [entry] <+: before ++ entry :: rest := ⟨rest, by simp⟩
    by_cases same : log[before.length].term = entry.term
    · rw [if_neg (not_not.mpr same)]
      have inLog' : before ++ [entry] <+: log :=
        rooted'.matching rooted inEntries inLog same.symm le_rfl
      have next := ih (by simpa using rooted') inLog' fun _ => by simp; omega
      rw [List.length_append, List.length_singleton] at next
      exact next.cons
    rw [if_pos same]
    have differs : ¬ before ++ [] ++ [entry] <+: log := fun inLog' => by
      rw [List.append_nil] at inLog'
      have := List.prefix_of_prefix_length_le inLog' inLog (by simp)
      have := this.eq_of_length (by simp)
      simp only [List.append_cancel_left_eq, List.cons.injEq, and_true] at this
      exact same (congrArg _ this.symm)
    have conflict : Reconciled log before (entry :: rest) (some ((before ++ []).length + 1), entry :: rest) :=
      .conflict [] rest entry rfl (by simpa using agrees) differs
    simpa using conflict

namespace Sim

variable {compacts : Prop} {before history after : History} {start : RaftNode machine} {owner : NodeId}
  {ctx ctx' : Ctx machine}

section

variable (sim : Sim setup compacts before start owner history ctx)
include sim

/-- What a node has committed is on the branch of its own term, once that term is won. -/
theorem committed_on_branch (elected : history.Elected (history.term owner)) :
    (history.log owner).take ctx.node.commitIndex <+: history.branch (history.term owner) :=
  sim.node.committed.on_branch sim.inv elected

/-- Taking over another log, given storage that holds it and the membership it prescribes.
The new log keeps what was committed, and the compacted part with it. -/
private theorem acceptLog (follower : ctx.node.role = .follower)
    (elected : history.Elected (history.term owner))
    (adopts : Adopts (history.branch (history.term owner)) (history.log owner) log)
    (node : ctx'.node = { ctx.node with
      storage := storage
      voters := (members setup.voters log).1
      learners := (members setup.voters log).2 }) (view : Represents storage log)
    (currentTerm : storage.currentTerm = ctx.node.storage.currentTerm)
    (votedFor : storage.votedFor = ctx.node.storage.votedFor)
    (snapMeta : storage.snapMeta = ctx.node.storage.snapMeta)
    (configBaseline : storage.configBaseline = ctx.node.storage.configBaseline)
    (snapData : storage.snapData = ctx.node.storage.snapData)
    (sends : (ctx'.out.sends, ctx'.shipped) = (ctx.out.sends, ctx.shipped))
    (applied : ctx'.applied = ctx.applied)
    (journal : sim.Logs ctx') :
    sim.At (history.accept owner log) ctx' := by
  have step : Step (protocol setup.voters) owner history (history.accept owner log) :=
    .accept history log (sim.node.role.trans (by rw [follower]; rfl)) elected adopts
  have grows : Extends history (history.accept owner log) := .step sim.inv step
  have accepted : (history.accept owner log).log owner = log := by simp [Consensus.State.accept]
  have inLog : (history.log owner).take ctx.node.commitIndex <+: log := by
    rcases adopts with same | ⟨-, greatest⟩
    · exact same ▸ List.take_prefix _ _
    · exact greatest _ (List.take_prefix _ _) (sim.committed_on_branch elected)
  have long : ctx.node.commitIndex ≤ log.length := by
    have := inLog.length_le
    rwa [List.length_take_of_le sim.node.commitLe] at this
  have taken : log.take ctx.node.commitIndex = (history.log owner).take ctx.node.commitIndex := by
    have := List.prefix_iff_eq_take.mp inLog
    rw [List.length_take_of_le sim.node.commitLe] at this
    exact this.symm
  have snapIndex : storage.snapIndex = ctx.node.storage.snapIndex := by
    simp [MemStorage.snapIndex, snapMeta]
  have takenSame : ∀ index ≤ ctx.node.commitIndex,
      log.take index = (history.log owner).take index := fun index within => by
    have := congrArg (List.take index) taken
    rwa [List.take_take, List.take_take, min_eq_left within] at this
  have compactedSame := takenSame _ (sim.node.snapLe.trans sim.node.appliedLe)
  refine sim.advance (.single step) sim.numbered ?_ sends applied (fun _ => by rw [node])
    (by rw [node]; exact ⟨le_rfl, le_rfl⟩) journal
  rw [node]
  exact { sim.node with
    term := currentTerm.trans sim.node.term
    vote := fun candidate own cast => votedFor.trans (sim.node.vote candidate own cast)
    log := accepted.symm ▸ view
    config := by rw [accepted]
    baseline := by
      rw [accepted]
      rw [snapIndex, compactedSame]
      exact sim.node.baseline
    savedBaseline := fun positive => configBaseline.trans (sim.node.savedBaseline (snapIndex ▸ positive))
    noBaseline := fun zero => configBaseline.trans (sim.node.noBaseline (snapIndex ▸ zero))
    compacted := fun positive => sim.node.compacted (snapIndex ▸ positive)
    snapLe := snapIndex.le.trans sim.node.snapLe
    commitLe := by rw [accepted]; exact long
    committed := by
      rw [accepted]
      exact taken.symm ▸ sim.node.committed.mono grows le_rfl
    tally := fun candidate => absurd (follower.symm.trans candidate) (by decide)
    matched := fun leader => absurd (follower.symm.trans leader) (by decide)
    next := fun leader => absurd (follower.symm.trans leader) (by decide)
    ownAck := fun leader => absurd (follower.symm.trans leader) (by decide)
    buffer := sim.node.buffer_mono grows
    state := fun image => by
      rw [accepted]
      exact (takenSame _ sim.node.appliedLe).symm ▸ sim.node.state image
    data := fun positive image => by
      rw [accepted, snapData, snapIndex, compactedSame]
      exact sim.node.data (snapIndex ▸ positive) image }

omit sim in
/-- Where a log departs from a branch, what they have in common ends. -/
theorem common_le_of_conflict (onBranch : front ++ entry :: back <+: branch)
    (differs : ¬ front ++ [entry] <+: log) (inLog : common <+: log)
    (inBranch : common <+: branch) : common.length ≤ front.length := by
  have next : front ++ [entry] <+: branch := (show _ <+: front ++ entry :: back from
    ⟨back, by simp⟩).trans onBranch
  by_contra longer
  refine differs ((List.prefix_of_prefix_length_le next inBranch ?_).trans inLog)
  simp
  omega

omit sim in
private theorem adopts_of_conflict (onBranch : front ++ entry :: back <+: branch)
    (differs : ¬ front ++ [entry] <+: log) : Adopts branch log (front ++ entry :: back) := by
  refine .inr ⟨onBranch, fun common inLog inBranch => ?_⟩
  have short := common_le_of_conflict onBranch differs inLog inBranch
  exact List.prefix_of_prefix_length_le inBranch onBranch (by simp; omega)

omit sim in
private theorem adopts_of_cut (onBranch : front ++ entry :: back <+: branch)
    (differs : ¬ front ++ [entry] <+: log) : Adopts branch log front := by
  refine .inr ⟨(List.prefix_append _ _).trans onBranch, fun common inLog inBranch => ?_⟩
  exact List.prefix_of_prefix_length_le inBranch ((List.prefix_append _ _).trans onBranch)
    (common_le_of_conflict onBranch differs inLog inBranch)

omit sim in
private theorem adopts_of_end (onBranch : log ++ back <+: branch) : Adopts branch log (log ++ back) :=
  .inr ⟨onBranch, fun _ inLog _ => inLog.trans (List.prefix_append _ _)⟩

omit sim in
theorem recompute_eq {node : RaftNode machine} (view : Represents node.storage log)
    (baseline : node.configBaseline = members setup.voters (log.take node.storage.snapIndex)) :
    node.recomputeConfigFromLog =
      { node with
        voters := (members setup.voters log).1
        learners := (members setup.voters log).2 } := by
  unfold RaftNode.recomputeConfigFromLog
  rw [view.lastIndex, baseline, view.configThrough setup.voters view.bound le_rfl, List.take_length]

/-- A follower brings its log in line with a leader's entries. -/
private theorem adoptEntries (follower : ctx.node.role = .follower)
    (elected : history.Elected (history.term owner))
    (onBranch : front ++ entries <+: history.branch (history.term owner))
    (agrees : front <+: history.log owner)
    (above : entries ≠ [] → ctx.node.storage.snapIndex ≤ front.length + 1) :
    ∃ log, sim.At (history.accept owner log)
        (ctx.adoptEntries front.length entries) ∧ front ++ entries <+: log := by
  have spec := reconcile_spec sim.node.log (sim.inv.logRooted owner)
    ((sim.inv.branchRooted _).shorten onBranch) agrees above
  unfold Ctx.adoptEntries
  generalize Ctx.reconcile ctx.node.storage (front.length + 1) entries = plan at spec
  have indexed : Indexed (front ++ entries) := (sim.numbered _).shorten onBranch
  have positive : ∀ entry ∈ front ++ entries, 0 < entry.term := fun entry member =>
    branch_term_pos sim.inv entry (onBranch.subset member)
  have snapLe := sim.node.snapLe.trans sim.node.appliedLe
  cases spec with
  | present found =>
    refine ⟨history.log owner, sim.acceptLog follower elected (.inl rfl) ?_ sim.node.log
      rfl rfl rfl rfl rfl rfl rfl sim.journal, found⟩
    simp [← sim.node.config]
  | ended middle back split more whole =>
    have rebuilt : front ++ entries = history.log owner ++ back := by
      rw [split, whole, List.append_assoc]
    rw [rebuilt] at onBranch indexed positive
    have view := sim.node.log.appendEntries indexed fun entry member =>
      positive entry (List.mem_append_right _ member)
    refine ⟨history.log owner ++ back, ?_, rebuilt ▸ List.prefix_rfl⟩
    simp only [Option.isSome_none, Bool.false_eq_true, false_or, more, not_false_eq_true,
      ne_eq, if_true, if_false]
    refine sim.acceptLog follower elected (adopts_of_end onBranch) ?_ view rfl rfl rfl rfl rfl
      rfl rfl (sim.journalWrite (.appendEntries back) fun _ same => by cases same)
    refine recompute_eq view (sim.node.baseline.trans ?_)
    exact congrArg (members setup.voters) (List.take_append_of_le_length sim.node.snapIndex_le).symm
  | conflict middle back entry split agrees differs =>
    have rebuilt : front ++ entries = front ++ middle ++ entry :: back := by
      rw [split, List.append_assoc]
    rw [rebuilt] at onBranch indexed positive
    have safe : ctx.node.commitIndex ≤ (front ++ middle).length := by
      have := common_le_of_conflict onBranch differs (List.take_prefix _ _) (sim.committed_on_branch elected)
      rwa [List.length_take_of_le sim.node.commitLe] at this
    have cut := sim.node.log.truncateFrom (Nat.lt_succ_of_le (snapLe.trans safe))
    rw [Nat.succ_sub_one, ← List.prefix_iff_eq_take.mp agrees] at cut
    have view := cut.appendEntries indexed fun other member =>
      positive other (List.mem_append_right _ member)
    obtain ⟨currentTerm, votedFor, snapMeta, snapData, configBaseline⟩ :=
      MemStorage.truncateFrom_fields ctx.node.storage ((front ++ middle).length + 1)
    refine ⟨front ++ middle ++ entry :: back, ?_, rebuilt ▸ List.prefix_rfl⟩
    have journal : sim.Logs ((ctx.write (.truncateFrom ((front ++ middle).length + 1))).write
          (.appendEntries (entry :: back))) := by
      intro off
      have truncated := sim.journalWrite (.truncateFrom ((front ++ middle).length + 1)) (fun index same => by
          obtain rfl := StorageOp.truncateFrom.inj same
          omega) off
      -- A crash before the append leaves the common part of the two logs.
      have between : sim.At (history.accept owner (front ++ middle))
          { ctx.write (.truncateFrom ((front ++ middle).length + 1)) with
            node.voters := (members setup.voters (front ++ middle)).1
            node.learners := (members setup.voters (front ++ middle)).2 } :=
        sim.acceptLog follower elected (adopts_of_cut onBranch differs) rfl cut currentTerm
          votedFor snapMeta configBaseline snapData rfl rfl fun _ => truncated
      exact truncated.write (between.recovery off) fun _ same => by cases same
    refine sim.acceptLog follower elected (adopts_of_conflict onBranch differs) ?_ view
      currentTerm votedFor snapMeta configBaseline snapData rfl rfl journal
    refine recompute_eq view (sim.node.baseline.trans ?_)
    have snapIndex : MemStorage.snapIndex ((ctx.node.storage.truncateFrom
        ((front ++ middle).length + 1)).appendEntries (entry :: back)) =
        ctx.node.storage.snapIndex := congrArg (·.elim 0 (·.lastIncludedIndex)) snapMeta
    have compactedSame : (history.log owner).take ctx.node.storage.snapIndex =
        (front ++ middle ++ entry :: back).take ctx.node.storage.snapIndex := by
      obtain ⟨tail, whole⟩ := agrees
      rw [← whole, List.take_append_of_le_length (snapLe.trans safe),
        List.take_append_of_le_length (snapLe.trans safe)]
    exact congrArg (members setup.voters) (compactedSame.trans (congrArg (List.take · _) snapIndex.symm))

/-- The consistency check of an append: equal terms at an index mean equal logs up to it. -/
theorem agrees_of_termAt (rooted : Rooted (protocol setup.voters) history front)
    (check : ctx.node.storage.termAt front.length = lastTerm front) :
    front <+: history.log owner ∧ (front ≠ [] → ctx.node.storage.snapIndex ≤ front.length) := by
  rcases List.eq_nil_or_concat front with rfl | ⟨init, entry, rfl⟩
  · exact ⟨List.nil_prefix, fun nonempty => absurd rfl nonempty⟩
  rw [List.concat_eq_append] at *
  rw [lastTerm_concat] at check
  obtain ⟨-, election, won, term⟩ := rooted init entry List.prefix_rfl
  have positive : 0 < entry.term := (sim.inv.election_positive won).trans_eq term
  have nonzero : ctx.node.storage.termAt (init ++ [entry]).length ≠ 0 := by
    rw [check]
    exact positive.ne'
  obtain ⟨low, high⟩ := sim.node.log.bounds_of_termAt nonzero
  refine ⟨?_, fun _ => low⟩
  rw [sim.node.log.termAt low high] at check
  rw [List.length_append, List.length_singleton] at check high
  have found : (history.log owner)[init.length]? = some (history.log owner)[init.length] :=
    List.getElem?_eq_getElem high
  rw [lastTerm_take_succ found] at check
  have inLog : (history.log owner).take init.length ++ [(history.log owner)[init.length]] <+:
      history.log owner := by
    have := List.take_prefix (init.length + 1) (history.log owner)
    rwa [List.take_add_one, found] at this
  refine rooted.matching (sim.inv.logRooted owner) List.prefix_rfl inLog check.symm ?_
  rw [List.length_take_of_le (by omega)]

theorem confirm (holds : length ≤ (history.log owner).length)
    (agrees : (history.log owner).take length <+: history.branch (history.term owner)) :
    sim.At (history.confirm owner length) ctx := by
  have step : Step (protocol setup.voters) owner history (history.confirm owner length) :=
    .confirm history length holds agrees
  have same : SameNode history (history.confirm owner length) owner := ⟨rfl, rfl, rfl, rfl⟩
  exact sim.advance (.single step) sim.numbered (sim.node.mono (.step sim.inv step) same) rfl rfl
    (fun _ => rfl) ⟨le_rfl, le_rfl⟩ sim.journal

/-- A follower's answer to entries of its own term's leader that pass the consistency
check. -/
private theorem acceptEntries (follower : ctx.node.role = .follower) (different : leader ≠ owner)
    (elected : history.Elected (history.term owner))
    (onBranch : front ++ entries <+: history.branch (history.term owner))
    (check : ctx.node.storage.termAt front.length = lastTerm front)
    (guard : entries ≠ [] → front = [] → ctx.node.storage.snapIndex ≤ 1)
    (committed : Committed history (history.term owner) ((front ++ entries).take leaderCommit)) :
    ∃ done, ctx.acceptEntries (history.term owner) leader front.length entries leaderCommit =
        .ok done ∧ sim.Leads done := by
  have rooted := (sim.inv.branchRooted _).shorten ((List.prefix_append _ _).trans onBranch)
  obtain ⟨agrees, above⟩ := sim.agrees_of_termAt rooted check
  obtain ⟨log, adopted, inLog⟩ := sim.adoptEntries follower elected onBranch agrees fun nonempty => by
      by_cases empty : front = []
      · rw [empty]
        exact guard nonempty empty
      · exact (above empty).trans (Nat.le_succ _)
  have length : (front ++ entries).length = front.length + entries.length := List.length_append
  have accepted : (history.accept owner log).log owner = log := by simp [Consensus.State.accept]
  have taken : log.take (front.length + entries.length) = front ++ entries := by
    rw [← length]
    exact (List.prefix_iff_eq_take.mp inLog).symm
  have long : front.length + entries.length ≤ log.length := length ▸ inLog.length_le
  have confirmed : sim.At ((history.accept owner log).confirm owner (front.length + entries.length)) _ :=
    adopted.confirm (accepted.symm ▸ long) (by rw [accepted, taken]; exact onBranch)
  have acked : front.length + entries.length ≤ ((history.accept owner log).confirm owner
      (front.length + entries.length)).acks owner (history.term owner) := by
    simp [Consensus.State.confirm, Consensus.State.accept]
  unfold Ctx.acceptEntries
  dsimp only
  split_ifs with raise
  · have inCommitted : log.take (min leaderCommit (front.length + entries.length)) <+:
        (front ++ entries).take leaderCommit := by
      rw [← taken, List.take_take]
    have settled : Committed history (history.term owner) (((history.accept owner log).log owner).take
          (min leaderCommit (front.length + entries.length))) :=
      committed.shorten (accepted.symm ▸ inCommitted)
    obtain ⟨done, result, simDone⟩ := confirmed.commitTo raise.2.le
      ((min_le_right _ _).trans (accepted.symm ▸ long)) settled
    rw [result]
    exact ⟨_, rfl, _, simDone.send different fun _ => acked⟩
  · exact ⟨_, rfl, _, confirmed.send different fun _ => acked⟩

theorem onAppendEntries (different : source ≠ owner) (genuine : Genuine setup compacts before source owner
      (.appendEntries term leader prevLogIndex prevLogTerm entries leaderCommit))
    (guard : ctx.node.storage.currentTerm ≤ term → entries ≠ [] → prevLogIndex = 0 →
      ctx.node.storage.snapIndex ≤ 1) (now : ℕ) :
    ∃ done, ctx.onAppendEntries now term leader prevLogIndex prevLogTerm entries leaderCommit =
        .ok done ∧ sim.Leads done := by
  obtain ⟨rfl, elected, front, onBranch, rfl, rfl, committed⟩ := genuine
  obtain ⟨middle, observed⟩ := sim.observeTerm term
  have reached := ctx.observeTerm_currentTerm term
  have snapMeta := ctx.observeTerm_snapMeta term
  unfold Ctx.onAppendEntries
  dsimp only
  generalize (ctx.observeTerm term).1 = seen at *
  by_cases stale : term < seen.node.storage.currentTerm
  · rw [if_pos stale]
    exact ⟨_, rfl, middle, observed.send different nofun⟩
  obtain ⟨later, followed⟩ := observed.followLeader now leader
  have role := seen.followLeader_role now leader
  have storage := seen.followLeader_storage now leader
  generalize seen.followLeader now leader = following at *
  have current : seen.node.storage.currentTerm = term := by omega
  have sameTerm : later.term owner = term := by rw [← followed.node.term, storage, current]
  split_ifs with mismatch
  · exact ⟨_, rfl, later, followed.send different nofun⟩
  rw [current, ← sameTerm]
  refine followed.acceptEntries role different ?_ ?_ (not_not.mp mismatch) ?_ ?_
  · exact sameTerm.symm ▸ followed.grows.elected elected
  · exact sameTerm.symm ▸ onBranch.trans (followed.grows.branches term)
  · intro nonempty empty
    have snapIndex : following.node.storage.snapIndex = ctx.node.storage.snapIndex := by
      rw [storage]
      exact congrArg (·.elim 0 (·.lastIncludedIndex)) snapMeta
    rw [snapIndex]
    exact guard (by omega) nonempty (by rw [empty]; rfl)
  · exact sameTerm.symm ▸ committed.mono followed.grows le_rfl

theorem noteMatch (leader : ctx.node.role = .leader) (different : peer ≠ owner)
    (copied : index ≤ history.acks peer (history.term owner)) :
    sim.At history (ctx.noteMatch peer index) := by
  have bounded : max ((ctx.node.matchIndex.get? peer).getD 0) index ≤
      history.acks peer (history.term owner) := by
    refine max_le ?_ copied
    cases found : ctx.node.matchIndex.get? peer with
    | none => exact Nat.zero_le _
    | some matched => exact (sim.node.matched leader peer matched found).2
  obtain ⟨onBranch, -⟩ := sim.node.leads sim.inv leader
  refine sim.quiet { sim.node with
    matched := fun _ other index found => ?_
    next := fun _ other index found => ?_
    idle := fun follower => absurd (leader.symm.trans follower) (by decide) } rfl rfl rfl rfl rfl
  · rw [Ctx.noteMatch, OrdMap.get?_insert] at found
    split_ifs at found with same
    · obtain rfl := Option.some.inj found
      subst same
      exact ⟨different, bounded⟩
    · exact sim.node.matched leader other index found
  · rw [Ctx.noteMatch, OrdMap.get?_insert] at found
    split_ifs at found with same
    · obtain rfl := Option.some.inj found
      refine ⟨Nat.succ_pos _, Nat.succ_le_succ (bounded.trans ?_)⟩
      rw [onBranch]
      exact sim.inv.ackBound peer _
    · exact sim.node.next leader other index found

theorem onAppendEntriesResp (different : source ≠ owner) (genuine : Genuine setup compacts before source owner
      (.appendEntriesResp term success matchIndex)) (now : ℕ) :
    ∃ done, ctx.onAppendEntriesResp now source term success matchIndex = .ok done ∧ sim.Leads done := by
  unfold Ctx.onAppendEntriesResp
  by_cases later : ctx.node.storage.currentTerm < term
  · rw [ctx.observeTerm_of_lt later]
    exact ⟨_, rfl, sim.observeTerm term⟩
  rw [ctx.observeTerm_of_le (not_lt.mp later)]
  dsimp only
  by_cases ignored : ctx.node.role ≠ .leader ∨ term ≠ ctx.node.storage.currentTerm
  · rw [if_pos ignored]
    exact ⟨ctx, rfl, history, sim⟩
  rw [if_neg ignored]
  push Not at ignored
  obtain ⟨leader, current⟩ := ignored
  by_cases accepted : success = true
  · rw [if_pos accepted]
    have contacted : sim.At history
        { ctx with node.quorumContact := ctx.node.quorumContact.insert source now } :=
      sim.quiet { sim.node with } rfl rfl rfl rfl rfl
    have copied : matchIndex ≤ history.acks source (history.term owner) := by
      rw [← sim.node.term, ← current]
      exact (genuine accepted).trans (sim.grows.acks _ _)
    obtain ⟨done, result, after, simDone, -⟩ :=
      (contacted.noteMatch leader different copied).maybeAdvanceCommit
    exact ⟨done, result, after, simDone⟩
  rw [if_neg accepted]
  have bounds := sim.node.next_bounds (by rw [leader]; nofun) source
  generalize (ctx.node.nextIndex.get? source).getD 1 = next at bounds
  have lowered : sim.At history
      { ctx with
        node.nextIndex := ctx.node.nextIndex.insert source (if 1 < next then next - 1 else next) } := by
    refine sim.quiet { sim.node with
      next := fun _ other index found => ?_
      idle := fun follower => absurd (leader.symm.trans follower) (by decide) } rfl rfl rfl rfl rfl
    rw [OrdMap.get?_insert] at found
    split_ifs at found with same above
    · obtain rfl := Option.some.inj found
      omega
    · obtain rfl := Option.some.inj found
      exact bounds
    · exact sim.node.next leader other index found
  exact ⟨_, rfl, history, lowered.sendAppendEntriesTo (sim.ownBranch leader) different⟩

theorem onHeartbeatTimer (now : ℕ) : sim.Leads (ctx.onHeartbeatTimer now) := by
  unfold Ctx.onHeartbeatTimer
  split
  · exact ⟨history, sim⟩
  rename_i leading
  split
  · have stepped := sim.stepDownToFollower
    have forgotten : sim.At _ { ctx.stepDownToFollower with node.leaderId := none } :=
      stepped.quiet { stepped.node with } rfl rfl rfl rfl rfl
    exact ⟨_, forgotten.armElectionTimer⟩
  · exact ⟨history, (sim.broadcastHeartbeat (sim.ownBranch (not_not.mp leading))).setTimer _ _⟩

/-- With no change in flight, no entry above the commit index is a membership change. -/
private theorem no_change_above_commit (quiet : ctx.node.membershipChangeInFlight = false) :
    ∀ entry ∈ (history.log owner).drop ctx.node.commitIndex,
      ¬ (protocol setup.voters).Reconfigures entry := by
  intro entry member reconfigures
  obtain ⟨offset, found⟩ := List.mem_iff_getElem?.mp member
  rw [List.getElem?_drop] at found
  have inside := (List.getElem?_eq_some_iff.mp found).1
  have snapLe := sim.node.snapLe.trans sim.node.appliedLe
  unfold RaftNode.membershipChangeInFlight at quiet
  rw [MemStorage.logStartIndex, sim.node.log.start, sim.node.log.lastIndex,
    max_eq_right (by omega), List.any_eq_false] at quiet
  refine quiet (ctx.node.commitIndex + offset + 1) ?_ ?_
  · rw [List.mem_range'_1]
    omega
  · rw [sim.node.log.entryAt (by omega) (by omega), Nat.add_sub_cancel, found]
    exact reconfigures

/-- A leader that has committed in its own term has the evidence a membership change
needs. -/
private theorem evidence (leader : ctx.node.role = .leader) (quiet : ctx.node.membershipChangeInFlight = false)
    (current : ctx.node.storage.termAt ctx.node.commitIndex = ctx.node.storage.currentTerm)
    (sameTerm : entry.term = history.term owner) :
    (protocol setup.voters).Evidence history.commits (history.log owner) entry := by
  obtain ⟨onBranch, election, won, term⟩ := sim.node.leads sim.inv leader
  have positive : 0 < history.term owner := term ▸ sim.inv.election_positive won
  have read := sim.node.log.termAt (sim.node.snapLe.trans sim.node.appliedLe) sim.node.commitLe
  rw [current, sim.node.term] at read
  have nonempty : (history.log owner).take ctx.node.commitIndex ≠ [] := fun empty => by
    rw [empty, lastTerm_nil] at read
    omega
  obtain ⟨commit, member, early, inCommit⟩ := sim.node.committed.resolve_left nonempty
  have facts := sim.inv.made commit member
  have rooted := (sim.inv.branchRooted _).shorten facts.log_branch
  obtain ⟨front, last, split, atLeast⟩ :=
    (rooted.ordered sim.inv.branchOrdered).lastTerm_mono nonempty inCommit
  have lastTerm : commit.term = last.term := by
    rw [← facts.current, split]
    exact (protocol setup.voters).lastTerm_concat front last
  have own : commit.term = history.term owner := by
    have : history.term owner ≤ last.term := read ▸ atLeast
    omega
  refine ⟨commit, member, own.trans sameTerm.symm, ?_, fun between inDrop => ?_⟩
  · rw [onBranch, ← own]
    exact facts.log_branch
  · have longer := inCommit.length_le
    rw [List.length_take_of_le sim.node.commitLe] at longer
    exact sim.no_change_above_commit quiet between ((List.drop_sublist_drop_left _ longer).subset inDrop)

private theorem trackPeers (leader : ctx.node.role = .leader) : sim.At history ctx.trackPeers := by
  refine sim.quiet { sim.node with
    matched := fun _ peer index found => ?_
    next := fun _ peer index found => ?_
    idle := fun follower => absurd (leader.symm.trans follower) (by decide) } rfl rfl rfl rfl rfl
  · rcases OrdMap.get?_foldl_insertIfAbsent _ _ _ found with ⟨member, rfl⟩ | present
    · exact ⟨sim.peers_ne peer member, Nat.zero_le _⟩
    · exact sim.node.matched leader peer index present
  · rcases OrdMap.get?_foldl_insertIfAbsent _ _ _ found with ⟨member, rfl⟩ | present
    · rw [sim.node.log.lastIndex]
      exact ⟨Nat.succ_pos _, le_rfl⟩
    · exact sim.node.next leader peer index present

/-- A leader's append; a membership change needs a commitment of the leader's own term. -/
private theorem appendPayload (leader : ctx.node.role = .leader)
    (allowed : payload.change?.isSome → ctx.node.membershipChangeInFlight = false ∧
      ctx.node.storage.termAt ctx.node.commitIndex = ctx.node.storage.currentTerm) :
    ∃ after, sim.At after (ctx.appendPayload payload) ∧ (ctx.appendPayload payload).node.role = .leader := by
  unfold Ctx.appendPayload
  by_cases change : payload.change?.isSome
  swap
  · rw [if_neg change]
    obtain ⟨after, appended⟩ := sim.appendPlain leader (Option.not_isSome_iff_eq_none.mp change)
    exact ⟨after, appended, leader⟩
  rw [if_pos change]
  obtain ⟨quiet, current⟩ := allowed change
  let entry : LogEntry :=
    ⟨ctx.node.storage.currentTerm, ctx.node.storage.lastLogIndex + 1, payload⟩
  have index : entry.index = (history.log owner).length + 1 :=
    congrArg (· + 1) sim.node.log.lastIndex
  obtain ⟨-, election, won, term⟩ := sim.node.leads sim.inv leader
  have positive : 0 < entry.term :=
    (sim.inv.election_positive won).trans_eq (term.trans sim.node.term.symm)
  have view : Represents (ctx.write (.append entry)).node.storage (history.log owner ++ [entry]) :=
    sim.node.log.append index positive
  have baseline : (ctx.write (.append entry)).node.configBaseline =
      members setup.voters ((history.log owner ++ [entry]).take ctx.node.storage.snapIndex) :=
    sim.node.baseline.trans
      (congrArg (members setup.voters) (List.take_append_of_le_length sim.node.snapIndex_le).symm)
  have recomputed : (ctx.write (.append entry)).recomputeConfigFromLog =
      { ctx.write (.append entry) with
        node.voters := (members setup.voters (history.log owner ++ [entry])).1
        node.learners := (members setup.voters (history.log owner ++ [entry])).2 } := by
    unfold Ctx.recomputeConfigFromLog
    rw [recompute_eq view baseline]
  have appended : sim.At _ (ctx.write (.append entry)).recomputeConfigFromLog :=
    recomputed ▸ sim.appendOwn leader sim.node.term index
      (fun _ => sim.evidence leader quiet current sim.node.term) rfl
  exact ⟨_, appended.trackPeers leader, leader⟩

theorem propose (allowed : ctx.node.role = .leader → payload.change?.isSome →
      ctx.node.membershipChangeInFlight = false →
      ctx.node.storage.termAt ctx.node.commitIndex = ctx.node.storage.currentTerm) :
    ∃ done result, ctx.propose payload = .ok (done, result) ∧ sim.Leads done := by
  unfold Ctx.propose
  by_cases refused : ctx.node.role ≠ .leader ∨ payload.change?.isSome ∧ ctx.node.membershipChangeInFlight
  · rw [if_pos refused]
    exact ⟨ctx, none, rfl, history, sim⟩
  rw [if_neg refused]
  push Not at refused
  obtain ⟨leader, quiet⟩ := refused
  obtain ⟨middle, appended, leading⟩ := sim.appendPayload leader fun change => by
    have idle := Bool.eq_false_iff.mpr (quiet change)
    exact ⟨idle, allowed leader change idle⟩
  have sent := appended.broadcastHeartbeat (appended.ownBranch leading)
  obtain ⟨done, result, after, simDone, -⟩ := sent.maybeAdvanceCommit
  rw [result]
  exact ⟨done, _, rfl, after, simDone⟩

end

end Sim

end IronCache.Raft
