import IronCache.Lib.Consensus.Matching

/-!
# Leader completeness and election safety

A winner contains everything committed in earlier terms: some voter confirmed the commitment and
voted for the winner.
-/

namespace IronCache.Consensus

open List

variable {N : Type u} {E : Type v} [DecidableEq N] {P : Protocol N E} {state : State N E}

theorem CommitFacts.log_branch (facts : CommitFacts P state commit) :
    commit.log <+: state.branch commit.term :=
  facts.inBranch.trans facts.branch

namespace Inv

section

variable (inv : Inv P state)
include inv

theorem logOrdered (node : N) : Ordered P (state.log node) :=
  (inv.logRooted node).ordered inv.branchOrdered

theorem election_positive (member : election ∈ state.elections) : 0 < election.term :=
  (inv.stood _ _ _ (inv.won _ member).stood).2.1

theorem election_log_term (member : election ∈ state.elections) :
    ∀ entry ∈ election.log, P.term entry < election.term :=
  (inv.stood _ _ _ (inv.won _ member).stood).2.2.2

theorem election_log_rooted (member : election ∈ state.elections) : Rooted P state election.log :=
  (inv.stood _ _ _ (inv.won _ member).stood).2.2.1

/-- A log with an entry of a term contains the log with which that term was won. -/
theorem election_log_below (member : election ∈ state.elections) (rooted : Rooted P state log)
    (inLog : before ++ [entry] <+: log) (same : P.term entry = election.term) : election.log <+: before := by
  obtain ⟨onBranch, -⟩ := rooted before entry inLog
  rw [same] at onBranch
  have base := (inv.won _ member).base
  have enough : election.log.length ≤ before.length := by
    by_contra shorter
    have inside : before ++ [entry] <+: election.log :=
      prefix_of_prefix_length_le onBranch base (by simp; omega)
    have := inv.election_log_term member entry (inside.subset (by simp))
    omega
  exact prefix_of_prefix_length_le base ((prefix_append _ _).trans onBranch) enough

theorem commit_log_ne_nil (facts : CommitFacts P state commit) : commit.log ≠ [] := by
  intro empty
  obtain ⟨election, won, same⟩ := facts.elected
  have positive := inv.election_positive won
  have current := facts.current
  rw [empty, P.lastTerm_nil] at current
  omega

theorem commit_branch_rooted (facts : CommitFacts P state commit) : Rooted P state commit.branch :=
  (inv.branchRooted _).shorten facts.branch

/-- A commitment reaches beyond the log with which its term was won. -/
theorem election_log_of_commit (facts : CommitFacts P state commit)
    (won : election ∈ state.elections) (same : election.term = commit.term) :
    election.log <+: commit.log := by
  obtain ⟨before, entry, split⟩ :=
    (eq_nil_or_concat commit.log).resolve_left (inv.commit_log_ne_nil facts)
  rw [concat_eq_append] at split
  have current := facts.current
  rw [split, P.lastTerm_concat] at current
  have inBranch : before ++ [entry] <+: commit.branch := split ▸ facts.inBranch
  rw [split]
  exact (inv.election_log_below won (inv.commit_branch_rooted facts) inBranch
    (current.trans same.symm)).trans (prefix_append _ _)

/-- A commitment is on the branch of its own and of every later term. -/
theorem commit_log_of_elected (member : commit ∈ state.commits) (won : election ∈ state.elections)
    (later : commit.term ≤ election.term) : commit.log <+: state.branch election.term := by
  rcases later.lt_or_eq with less | same
  · exact (inv.complete _ member _ won less).trans (inv.won _ won).base
  · exact same ▸ (inv.made _ member).log_branch

end

end Inv

/-- The last entry of a log no shorter than a nonempty prefix has at least its last term. -/
theorem Ordered.lastTerm_mono (ordered : Ordered P log) (nonempty : held ≠ []) (inLog : held <+: log) :
    ∃ before entry, log = before ++ [entry] ∧ P.lastTerm held ≤ P.term entry := by
  rcases eq_nil_or_concat log with rfl | ⟨before, entry, rfl⟩
  · exact absurd (prefix_nil.mp inLog) nonempty
  rw [concat_eq_append] at *
  refine ⟨before, entry, rfl, ?_⟩
  rcases prefix_concat_iff.mp inLog with rfl | below
  · exact (P.lastTerm_concat _ _).le
  obtain ⟨front, last, rfl⟩ := eq_nil_or_concat held |>.resolve_left nonempty
  rw [concat_eq_append] at *
  rw [P.lastTerm_concat]
  exact ordered.le_of_mem_before prefix_rfl (below.subset (by simp))

/-- The voter's argument: a candidate at least as recent as a log that holds a commitment
holds it too, given that all winners of the terms between hold it. -/
theorem Inv.held_of_upToDate (inv : Inv P state) (voterRooted : Rooted P state voterLog)
    (rooted : Rooted P state log) (below : ∀ entry ∈ log, P.term entry < bound)
    (recent : P.UpToDate log voterLog) (nonempty : held ≠ []) (inVoter : held <+: voterLog)
    (carried : ∀ election ∈ state.elections, P.lastTerm held < election.term →
      election.term < bound → held <+: election.log) : held <+: log := by
  obtain ⟨before, entry, rfl, later⟩ :=
    (voterRooted.ordered inv.branchOrdered).lastTerm_mono nonempty inVoter
  rcases recent with newer | ⟨same, longer⟩
  · rw [P.lastTerm_concat] at newer
    rcases eq_nil_or_concat log with rfl | ⟨before', entry', rfl⟩
    · simp at newer
    rw [concat_eq_append] at *
    rw [P.lastTerm_concat] at newer
    obtain ⟨-, election, member, term⟩ := rooted before' entry' prefix_rfl
    have inElection := carried election member (by omega) (term ▸ below entry' (by simp))
    have inLog := inv.election_log_below member rooted prefix_rfl term.symm
    exact inElection.trans (inLog.trans (prefix_append _ _))
  · rcases eq_nil_or_concat log with rfl | ⟨before', entry', rfl⟩
    · simp at longer
    rw [concat_eq_append] at *
    simp only [P.lastTerm_concat] at same
    refine inVoter.trans (voterRooted.matching rooted prefix_rfl prefix_rfl same.symm ?_)
    simpa using longer

namespace Inv

section

variable (inv : Inv P state)
include inv

/-- A log whose reconfigurations are evidenced shares that evidence with any log that
contains the commitments concerned. -/
theorem sharesEvidence (evidenced : P.Evidenced commits log) (known : commits ⊆ state.commits)
    (contained : ∀ before entry, before ++ [entry] <+: log → ∀ commit ∈ commits,
      commit.term = P.term entry → commit.log <+: before → commit.log <+: other) :
    P.SharesEvidence log other := by
  intro before entry inLog reconfigures
  obtain ⟨commit, member, same, below, between⟩ := evidenced before entry inLog reconfigures
  exact ⟨commit.log, inv.commit_log_ne_nil (inv.made _ (known member)),
    (inv.made _ (known member)).current.trans same, below,
    contained before entry inLog commit member same below, between⟩

theorem evidenced_of_rooted (rooted : Rooted P state log) : P.Evidenced state.commits log := by
  intro before entry inLog reconfigures
  exact inv.branchEvidenced _ before entry (rooted before entry inLog).1 reconfigures

/-- Of two commitments, one of which a log misses and the other it contains, the contained
one lies on the branch of the missing one. -/
theorem shared_of_missing (facts : CommitFacts P state commit)
    (carried : ∀ election ∈ state.elections, commit.term < election.term → election.term < bound →
      commit.log <+: election.log)
    (missing : ¬ commit.log <+: log) (member : other ∈ state.commits) (early : other.term < bound)
    (inLog : other.log <+: log) : other.log <+: commit.branch := by
  rcases lt_trichotomy other.term commit.term with less | same | greater
  · obtain ⟨election, won, term⟩ := facts.elected
    have inElection := inv.complete _ member _ won (term ▸ less)
    exact inElection.trans ((inv.election_log_of_commit facts won term).trans facts.inBranch)
  · have onBranch := (inv.made _ member).log_branch
    rw [same] at onBranch
    refine (List.prefix_or_prefix_of_prefix onBranch facts.branch).resolve_right fun longer => ?_
    exact missing (facts.inBranch.trans (longer.trans inLog))
  · obtain ⟨election, won, term⟩ := (inv.made _ member).elected
    have inElection := carried election won (term ▸ greater) (term ▸ early)
    exact absurd (inElection.trans ((inv.election_log_of_commit (inv.made _ member) won term).trans inLog))
      missing

/-- A commitment and a log that misses it prescribe neighbouring voters, if what the
commitment's branch rests on is in the log. -/
theorem neighbours_of_missing (facts : CommitFacts P state commit) (rooted : Rooted P state log)
    (below : ∀ entry ∈ log, P.term entry < bound)
    (carried : ∀ election ∈ state.elections, commit.term < election.term → election.term < bound →
      commit.log <+: election.log)
    (missing : ¬ commit.log <+: log) (evidenced : P.Evidenced older commit.branch)
    (known : older ⊆ state.commits)
    (inherited : ∀ other ∈ older, other.term ≤ commit.term → other.log <+: log) :
    Neighbours (P.voters commit.branch) (P.voters log) := by
  refine P.neighbours_of_shared inv.branchOrdered (inv.commit_branch_rooted facts) rooted ?_ ?_
  · refine inv.sharesEvidence evidenced known fun before entry inBranch other member same _ => ?_
    refine inherited other member (same ▸ ?_)
    exact inv.branchTerm _ entry ((inBranch.trans facts.branch).subset (by simp))
  · refine inv.sharesEvidence (inv.evidenced_of_rooted rooted) (List.Subset.refl _)
      fun before entry inLog other member same inBefore => ?_
    have early : other.term < bound := same ▸ below entry (inLog.subset (by simp))
    exact inv.shared_of_missing facts carried missing member early
      (inBefore.trans ((prefix_append _ _).trans inLog))

/-- A candidate with a majority behind it holds everything committed in earlier terms. -/
theorem candidate_holds (candidate : state.role node = .candidate)
    (majority : IsMajority (P.voters (state.log node)) quorum)
    (support : ∀ voter ∈ quorum, ∃ log, state.votes voter (state.term node) = some (node, log))
    (grounded : Grounded P commits) (known : commits ⊆ state.commits) :
    ∀ commit ∈ commits, commit.term < state.term node → commit.log <+: state.log node := by
  obtain ⟨stood, -⟩ := inv.stands node candidate
  obtain ⟨-, -, rooted, below⟩ := inv.stood node _ _ stood
  induction grounded with
  | nil => simp
  | @cons older commit evidenced _ ih =>
    obtain ⟨newest, rest⟩ := cons_subset.mp known
    intro made member earlier
    rcases mem_cons.mp member with rfl | inOlder
    swap
    · exact ih rest made inOlder earlier
    by_contra missing
    have facts := inv.made made newest
    have carried := inv.complete made newest
    have near := inv.neighbours_of_missing facts rooted below
      (fun election won later _ => carried election won later) missing evidenced rest
      fun other inOlder noLater => ih rest other inOlder (noLater.trans_lt earlier)
    obtain ⟨voter, copied, voted⟩ := facts.majority.meet majority near
    obtain ⟨voterLog, cast⟩ := support voter voted
    obtain ⟨-, voterRooted, stoodLog, stood', recent⟩ := inv.voted _ _ _ _ cast
    obtain rfl : state.log node = stoodLog := Option.some.inj (stood.symm.trans stood')
    have inVoter : made.log <+: voterLog :=
      inv.voteKeeps _ _ _ _ cast made.term earlier made.log facts.log_branch
        (facts.copied voter copied) fun election won later _ => carried election won later
    exact missing (inv.held_of_upToDate voterRooted rooted below recent (inv.commit_log_ne_nil facts) inVoter
      fun election won later _ => carried election won (facts.current ▸ later))

/-- A candidate with a majority behind it is the first to win its term. -/
theorem candidate_first (candidate : state.role node = .candidate)
    (majority : IsMajority (P.voters (state.log node)) quorum)
    (support : ∀ voter ∈ quorum, ∃ log, state.votes voter (state.term node) = some (node, log)) :
    ¬ state.Elected (state.term node) := by
  rintro ⟨election, won, same⟩
  obtain ⟨stood, other⟩ := inv.stands node candidate
  obtain ⟨-, -, rooted, below⟩ := inv.stood node _ _ stood
  have holds := inv.candidate_holds candidate majority support inv.grounded (List.Subset.refl _)
  have rooted' := inv.election_log_rooted won
  have near : Neighbours (P.voters election.log) (P.voters (state.log node)) := by
    refine P.neighbours_of_shared inv.branchOrdered rooted' rooted ?_ ?_
    · refine inv.sharesEvidence (inv.evidenced_of_rooted rooted') (List.Subset.refl _)
        fun before entry inLog commit member term _ => holds commit member ?_
      exact term ▸ same ▸ inv.election_log_term won entry (inLog.subset (by simp))
    · refine inv.sharesEvidence (inv.evidenced_of_rooted rooted) (List.Subset.refl _)
        fun before entry inLog commit member term _ => inv.complete commit member election won ?_
      exact term ▸ same ▸ below entry (inLog.subset (by simp))
  obtain ⟨voter, voted, voted'⟩ := (inv.won _ won).majority.meet majority near
  obtain ⟨_, cast, -⟩ := (inv.won _ won).support voter voted
  obtain ⟨_, cast'⟩ := support voter voted'
  rw [same, cast'] at cast
  simp only [Option.some.injEq, Prod.mk.injEq] at cast
  exact other election won same cast.1.symm

/-- What a leader commits is in the log of every later winner, also of those that won before
the commitment was made. -/
theorem winner_holds (facts : CommitFacts P state commit) :
    ∀ election ∈ state.elections, commit.term < election.term → commit.log <+: election.log := by
  suffices claim : ∀ bound, ∀ election ∈ state.elections, election.term = bound →
      commit.term < election.term → commit.log <+: election.log from
    fun election won => claim _ election won rfl
  intro bound
  -- Strong induction on the winner's term: the winners of the terms between are carried.
  induction bound using Nat.strong_induction_on with
  | _ bound ih =>
    rintro election won rfl later
    by_contra missing
    have carried : ∀ between ∈ state.elections, commit.term < between.term →
        between.term < election.term → commit.log <+: between.log :=
      fun between won' later' earlier => ih _ earlier between won' rfl later'
    have rooted := inv.election_log_rooted won
    have below := inv.election_log_term won
    have near := inv.neighbours_of_missing facts rooted below carried missing
      (inv.evidenced_of_rooted (inv.commit_branch_rooted facts)) (List.Subset.refl _)
      fun other member noLater => inv.complete other member election won (noLater.trans_lt later)
    obtain ⟨voter, copied, voted⟩ := facts.majority.meet (inv.won _ won).majority near
    obtain ⟨voterLog, cast, kept⟩ := (inv.won _ won).support voter voted
    obtain ⟨-, voterRooted, stoodLog, stood', recent⟩ := inv.voted _ _ _ _ cast
    obtain rfl : election.log = stoodLog :=
      Option.some.inj ((inv.won _ won).stood.symm.trans stood')
    have inVoter : commit.log <+: voterLog :=
      kept commit.term later commit.log facts.log_branch (facts.copied voter copied) carried
    exact missing (inv.held_of_upToDate voterRooted rooted below recent (inv.commit_log_ne_nil facts) inVoter
      fun between won' later' earlier => carried between won' (facts.current ▸ later') earlier)

/-- Any two commitments are prefixes of one another. -/
theorem commits_comparable (first : commit ∈ state.commits) (second : commit' ∈ state.commits) :
    commit.log <+: commit'.log ∨ commit'.log <+: commit.log := by
  wlog ordered : commit.term ≤ commit'.term generalizing commit commit'
  · exact (this second first (le_of_not_ge ordered)).symm
  obtain ⟨election, won, same⟩ := (inv.made _ second).elected
  have onBranch := inv.commit_log_of_elected first won (same ▸ ordered)
  rw [same] at onBranch
  exact prefix_or_prefix_of_prefix onBranch (inv.made _ second).log_branch

end

end Inv

end IronCache.Consensus
