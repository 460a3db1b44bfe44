import IronCache.Lib.Majority

/-!
# A replicated log under elections and one-server reconfiguration

The state keeps the whole history of elections and commits, and a step reads what other nodes did
through the history alone, so that a protocol with lost, repeated and reordered messages refines it.
-/

namespace IronCache.Consensus

/-- What the machine needs to know about log entries: the term that created them, which of
them change the voters, and the voters a log prescribes. -/
structure Protocol (N : Type u) (E : Type v) [DecidableEq N] where
  term : E → ℕ
  Reconfigures : E → Prop
  voters : List E → Finset N
  voters_keep : ∀ log entry, ¬ Reconfigures entry → voters (log ++ [entry]) = voters log
  voters_step : ∀ log entry, Neighbours (voters log) (voters (log ++ [entry]))

inductive Role where
  | follower
  | candidate
  | leader
deriving DecidableEq

/-- A won election: who won which term, with which log, by whose votes. -/
structure Election (N : Type u) (E : Type v) where
  node : N
  term : ℕ
  log : List E
  quorum : Finset N

/-- A commitment: the committed log, the term and branch of the leader that committed it,
and who had copied it. -/
structure Commit (N : Type u) (E : Type v) where
  term : ℕ
  log : List E
  branch : List E
  quorum : Finset N

/-- The nodes' current terms, roles and logs, and the history of the run. -/
structure State (N : Type u) (E : Type v) where
  term : N → ℕ
  role : N → Role
  log : N → List E
  /-- The longest log the leader of a term has had. -/
  branch : ℕ → List E
  /-- The log with which a node stood for election in a term. -/
  campaigns : N → ℕ → Option (List E)
  /-- Whom a node voted for in a term, and its own log at that moment. -/
  votes : N → ℕ → Option (N × List E)
  /-- How much of a term's branch a node has confirmed to hold, while in that term. -/
  acks : N → ℕ → ℕ
  elections : List (Election N E)
  commits : List (Commit N E)

/-- Nobody has voted, stood or won. -/
def State.initial : State N E where
  term _ := 0
  role _ := .follower
  log _ := []
  branch _ := []
  campaigns _ _ := none
  votes _ _ := none
  acks _ _ := 0
  elections := []
  commits := []

section Logs

variable [DecidableEq N] (P : Protocol N E)

/-- The term of a log's last entry, zero for the empty log. -/
def Protocol.lastTerm (log : List E) : ℕ := log.getLast?.elim 0 P.term

/-- The voting rule: a candidate's log is at least as recent as the voter's. -/
def Protocol.UpToDate (candidate voter : List E) : Prop :=
  P.lastTerm voter < P.lastTerm candidate ∨
    P.lastTerm candidate = P.lastTerm voter ∧ voter.length ≤ candidate.length

/-- A commitment of the entry's own term lies in the log below the entry, and no other
reconfiguration lies between the two. -/
def Protocol.Evidence (commits : List (Commit N E)) (log : List E) (entry : E) : Prop :=
  ∃ commit ∈ commits, commit.term = P.term entry ∧ commit.log <+: log ∧
    ∀ between ∈ log.drop commit.log.length, ¬ P.Reconfigures between

/-- Every reconfiguration in the log rests on a commitment below it. -/
def Protocol.Evidenced (commits : List (Commit N E)) (log : List E) : Prop :=
  ∀ before entry, before ++ [entry] <+: log → P.Reconfigures entry → P.Evidence commits before entry

end Logs

/-- The term has been won. -/
def State.Elected (state : State N E) (term : ℕ) : Prop :=
  ∃ election ∈ state.elections, election.term = term

/-- A log that agrees with another wherever the first agreed with it before. -/
def Adopts (branch before after : List E) : Prop :=
  after = before ∨ after <+: branch ∧ ∀ common, common <+: before → common <+: branch → common <+: after

open Function (update)

variable [DecidableEq N]

/-- Sets the entry of one node and term. -/
def record (table : N → ℕ → α) (node : N) (term : ℕ) (value : α) : N → ℕ → α :=
  update table node (update (table node) term value)

theorem record_apply (table : N → ℕ → α) (node : N) (term : ℕ) (value : α) (other : N)
    (otherTerm : ℕ) : record table node term value other otherTerm =
      if other = node ∧ otherTerm = term then value else table other otherTerm := by
  by_cases sameNode : other = node
  · subst sameNode
    by_cases sameTerm : otherTerm = term <;> simp [record, sameTerm]
  · simp [record, sameNode]

@[simp]
theorem record_self (table : N → ℕ → α) (node : N) (term : ℕ) (value : α) :
    record table node term value node term = value := by
  simp [record]

namespace State

variable (state : State N E) (node : N)

/-- The node enters a later term as a follower. -/
def bump (term : ℕ) : State N E :=
  { state with
    term := update state.term node term
    role := update state.role node .follower }

def stepDown : State N E :=
  { state with role := update state.role node .follower }

/-- The vote is kept with the log it was cast on. -/
def castVote (candidate : N) : State N E :=
  { state with
    votes := record state.votes node (state.term node) (some (candidate, state.log node)) }

/-- The node asks for votes with the log it has. -/
def stand : State N E :=
  { state with
    role := update state.role node .candidate
    campaigns := record state.campaigns node (state.term node) (some (state.log node)) }

/-- A candidate votes for itself. -/
def campaign : State N E :=
  ((state.bump node (state.term node + 1)).stand node).castVote node node

@[simp]
theorem campaign_term : (state.campaign node).term node = state.term node + 1 := by
  simp [campaign, castVote, stand, bump]

@[simp]
theorem campaign_role : (state.campaign node).role node = .candidate := by
  simp [campaign, castVote, stand]

@[simp]
theorem campaign_campaigns :
    (state.campaign node).campaigns node (state.term node + 1) = some (state.log node) := by
  simp [campaign, castVote, stand, bump]

@[simp]
theorem campaign_votes :
    (state.campaign node).votes node (state.term node + 1) = some (node, state.log node) := by
  simp [campaign, castVote, stand, bump]

/-- What a node has confirmed of a term never shrinks. -/
def confirm (length : ℕ) : State N E :=
  { state with
    acks := record state.acks node (state.term node) (max (state.acks node (state.term node)) length) }

/-- The log of the winner becomes the branch of its term. -/
def elect (quorum : Finset N) : State N E :=
  { state with
    role := update state.role node .leader
    branch := update state.branch (state.term node) (state.log node)
    elections := ⟨node, state.term node, state.log node, quorum⟩ :: state.elections }

/-- A leader's log is the branch of its term. -/
def append (entry : E) : State N E :=
  { state with
    log := update state.log node (state.log node ++ [entry])
    branch := update state.branch (state.term node) (state.log node ++ [entry]) }

def accept (log : List E) : State N E :=
  { state with log := update state.log node log }

/-- The commit is kept with the log it was made on. -/
def commit (log : List E) (quorum : Finset N) : State N E :=
  { state with
    commits := ⟨state.term node, log, state.log node, quorum⟩ :: state.commits }

end State

/-- What one node may do, and when. -/
inductive Step (P : Protocol N E) (node : N) : State N E → State N E → Prop where
  | bump (state) (term : ℕ) (later : state.term node < term) : Step P node state (state.bump node term)
  | stepDown (state) : Step P node state (state.stepDown node)
  | campaign (state) : Step P node state (state.campaign node)
  | vote (state) (candidate : N) (log : List E)
      (stands : state.campaigns candidate (state.term node) = some log)
      (free : state.votes node (state.term node) = none) (recent : P.UpToDate log (state.log node)) :
      Step P node state (state.castVote node candidate)
  | elect (state) (quorum : Finset N) (candidate : state.role node = .candidate)
      (majority : IsMajority (P.voters (state.log node)) quorum)
      (support : ∀ voter ∈ quorum, ∃ log, state.votes voter (state.term node) = some (node, log)) :
      Step P node state (state.elect node quorum)
  | append (state) (entry : E) (leader : state.role node = .leader) (current : P.term entry = state.term node)
      (evidence : P.Reconfigures entry → P.Evidence state.commits (state.log node) entry) :
      Step P node state (state.append node entry)
  | accept (state) (log : List E) (follower : state.role node = .follower)
      (elected : state.Elected (state.term node))
      (adopts : Adopts (state.branch (state.term node)) (state.log node) log) :
      Step P node state (state.accept node log)
  | confirm (state) (length : ℕ) (holds : length ≤ (state.log node).length)
      (agrees : (state.log node).take length <+: state.branch (state.term node)) :
      Step P node state (state.confirm node length)
  | commit (state) (log : List E) (quorum : Finset N) (leader : state.role node = .leader)
      (inLog : log <+: state.log node) (current : P.lastTerm log = state.term node)
      (majority : IsMajority (P.voters (state.log node)) quorum)
      (copied : ∀ voter ∈ quorum, log.length ≤ state.acks voter (state.term node)) :
      Step P node state (state.commit node log quorum)

abbrev Steps (P : Protocol N E) (node : N) : State N E → State N E → Prop :=
  Relation.ReflTransGen (Step P node)

end IronCache.Consensus
