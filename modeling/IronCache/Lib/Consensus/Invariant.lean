import IronCache.Lib.Consensus.State

/-!
# The invariant of the replicated log

`Inv` collects what every reachable state satisfies.
-/

namespace IronCache.Consensus

variable {N : Type u} {E : Type v}

/-- What a node confirmed of a term's branch is in the given log, unless an election below
the bound lost it. -/
def Keeps (state : State N E) (node : N) (term bound : ℕ) (log : List E) : Prop :=
  ∀ held, held <+: state.branch term → held.length ≤ state.acks node term →
    (∀ election ∈ state.elections, term < election.term → election.term < bound →
      held <+: election.log) →
    held <+: log

theorem Keeps.mono_log (kept : Keeps state node term bound log) (longer : log <+: log') :
    Keeps state node term bound log' :=
  fun held onBranch confirmed carried => (kept held onBranch confirmed carried).trans longer

/-- What no step ever takes back. -/
structure Extends (state after : State N E) : Prop where
  terms : ∀ node, state.term node ≤ after.term node
  branches : ∀ term, state.branch term <+: after.branch term
  campaigns : ∀ node term log, state.campaigns node term = some log → after.campaigns node term = some log
  votes : ∀ node term vote, state.votes node term = some vote → after.votes node term = some vote
  acks : ∀ node term, state.acks node term ≤ after.acks node term
  elections : state.elections ⊆ after.elections
  commits : state.commits ⊆ after.commits

namespace Extends

theorem refl (state : State N E) : Extends state state where
  terms _ := le_rfl
  branches _ := List.prefix_rfl
  campaigns _ _ _ := id
  votes _ _ _ := id
  acks _ _ := le_rfl
  elections := List.Subset.refl _
  commits := List.Subset.refl _

theorem trans (left : Extends first second) (right : Extends second third) : Extends first third where
  terms node := (left.terms node).trans (right.terms node)
  branches term := (left.branches term).trans (right.branches term)
  campaigns node term log stood := right.campaigns node term log (left.campaigns _ _ _ stood)
  votes node term vote cast := right.votes node term vote (left.votes _ _ _ cast)
  acks node term := (left.acks node term).trans (right.acks node term)
  elections := fun _ member => right.elections (left.elections member)
  commits := fun _ member => right.commits (left.commits member)

variable {state after : State N E}

theorem elected (grows : Extends state after) (won : state.Elected term) :
    after.Elected term := by
  obtain ⟨election, member, same⟩ := won
  exact ⟨election, grows.elections member, same⟩

/-- A confirmed prefix stays kept while the node's confirmation of the term stays as it is. -/
theorem keeps (grows : Extends state after) (bounded : ∀ node term,
      state.acks node term ≤ (state.branch term).length)
    (same : after.acks node term = state.acks node term)
    (kept : Keeps state node term bound log) (wider : bound ≤ bound') :
    Keeps after node term bound' log := by
  intro held onBranch confirmed carried
  rw [same] at confirmed
  refine kept held ?_ confirmed fun election member later below =>
    carried election (grows.elections member) later (below.trans_le wider)
  exact List.prefix_of_prefix_length_le onBranch (grows.branches term) (confirmed.trans (bounded node term))

end Extends

variable [DecidableEq N] {P : Protocol N E}

/-- Every entry of the log was created on the branch of its term, below the same entries. -/
def Rooted (P : Protocol N E) (state : State N E) (log : List E) : Prop :=
  ∀ before entry, before ++ [entry] <+: log →
    before ++ [entry] <+: state.branch (P.term entry) ∧ state.Elected (P.term entry)

def Ordered (P : Protocol N E) (log : List E) : Prop :=
  log.Pairwise (P.term · ≤ P.term ·)

/-- Every commitment was made on a branch whose reconfigurations rest on older ones. -/
inductive Grounded (P : Protocol N E) : List (Commit N E) → Prop where
  | nil : Grounded P []
  | cons (evidenced : P.Evidenced older commit.branch) (grounded : Grounded P older) :
      Grounded P (commit :: older)

/-- What a won election leaves behind. -/
structure ElectionFacts (P : Protocol N E) (state : State N E) (election : Election N E) : Prop where
  stood : state.campaigns election.node election.term = some election.log
  base : election.log <+: state.branch election.term
  above : ∀ before entry, before ++ [entry] <+: state.branch election.term →
    election.log.length ≤ before.length → P.term entry = election.term
  majority : IsMajority (P.voters election.log) election.quorum
  support : ∀ voter ∈ election.quorum, ∃ log, state.votes voter election.term = some (election.node, log) ∧
      ∀ term < election.term, Keeps state voter term election.term log

/-- What a commitment leaves behind. -/
structure CommitFacts (P : Protocol N E) (state : State N E) (commit : Commit N E) : Prop where
  elected : state.Elected commit.term
  inBranch : commit.log <+: commit.branch
  branch : commit.branch <+: state.branch commit.term
  current : P.lastTerm commit.log = commit.term
  majority : IsMajority (P.voters commit.branch) commit.quorum
  copied : ∀ voter ∈ commit.quorum, commit.log.length ≤ state.acks voter commit.term

structure Inv (P : Protocol N E) (state : State N E) : Prop where
  branchRooted : ∀ term, Rooted P state (state.branch term)
  branchOrdered : ∀ term, Ordered P (state.branch term)
  branchTerm : ∀ term, ∀ entry ∈ state.branch term, P.term entry ≤ term
  branchEmpty : ∀ term, ¬ state.Elected term → state.branch term = []
  branchEvidenced : ∀ term, P.Evidenced state.commits (state.branch term)
  logRooted : ∀ node, Rooted P state (state.log node)
  logTerm : ∀ node, ∀ entry ∈ state.log node, P.term entry ≤ state.term node
  leads : ∀ node, state.role node = .leader → state.log node = state.branch (state.term node) ∧
      ∃ election ∈ state.elections, election.node = node ∧ election.term = state.term node
  stands : ∀ node, state.role node = .candidate →
    state.campaigns node (state.term node) = some (state.log node) ∧
      ∀ election ∈ state.elections, election.term = state.term node → election.node ≠ node
  stood : ∀ node term log, state.campaigns node term = some log →
    term ≤ state.term node ∧ 0 < term ∧ Rooted P state log ∧ ∀ entry ∈ log, P.term entry < term
  voted : ∀ node term candidate log, state.votes node term = some (candidate, log) →
    term ≤ state.term node ∧ Rooted P state log ∧
      ∃ stood, state.campaigns candidate term = some stood ∧ P.UpToDate stood log
  voteKeeps : ∀ node term candidate log, state.votes node term = some (candidate, log) →
    ∀ earlier < term, Keeps state node earlier (term + 1) log
  ackBound : ∀ node term, state.acks node term ≤ (state.branch term).length
  ackTerm : ∀ node term, 0 < state.acks node term → term ≤ state.term node
  ackKeeps : ∀ node term, Keeps state node term (state.term node + 1) (state.log node)
  unique : ∀ first ∈ state.elections, ∀ second ∈ state.elections, first.term = second.term → first = second
  won : ∀ election ∈ state.elections, ElectionFacts P state election
  made : ∀ commit ∈ state.commits, CommitFacts P state commit
  grounded : Grounded P state.commits
  complete : ∀ commit ∈ state.commits, ∀ election ∈ state.elections,
    commit.term < election.term → commit.log <+: election.log

namespace Extends

variable {state after : State N E}

theorem rooted (grows : Extends state after) (rooted : Rooted P state log) :
    Rooted P after log := by
  intro before entry inLog
  obtain ⟨onBranch, won⟩ := rooted before entry inLog
  exact ⟨onBranch.trans (grows.branches _), grows.elected won⟩

theorem evidenced (grows : Extends state after)
    (evidenced : P.Evidenced state.commits log) : P.Evidenced after.commits log := by
  intro before entry inLog reconfigures
  obtain ⟨commit, member, rest⟩ := evidenced before entry inLog reconfigures
  exact ⟨commit, grows.commits member, rest⟩

end Extends

theorem Rooted.shorten (rooted : Rooted P state log) (shorter : log' <+: log) :
    Rooted P state log' :=
  fun before entry inLog => rooted before entry (inLog.trans shorter)

end IronCache.Consensus
