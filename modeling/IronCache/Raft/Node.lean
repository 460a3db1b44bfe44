import IronCache.Lib.OrdMap
import IronCache.Raft.Storage

/-!
# The Raft step engine

`RaftNode` of `ironcache-raft/src/lib.rs`. A handler is a function on `Ctx`; one that can reach a
panic returns `Outcome`.
-/

namespace IronCache.Raft

/-- What has come of the snapshot that is being installed. -/
structure SnapshotRx where
  lastIncludedIndex : ℕ
  lastIncludedTerm : ℕ
  voters : NodeSet
  learners : NodeSet
  data : List UInt8
deriving DecidableEq

/-- The state of a node beside its storage. -/
structure RaftNode (machine : StateMachine) where
  id : NodeId
  voters : NodeSet
  learners : NodeSet
  configBaseline : NodeSet × NodeSet
  role : Role := .follower
  votes : NodeSet := ∅
  preVotes : Option NodeSet := none
  preVoteTerm : ℕ := 0
  failedPreVoteRounds : ℕ := 0
  preVoteRoundResponded : Bool := false
  lastLeaderContact : Option ℕ := none
  quorumContact : OrdMap NodeId ℕ := ∅
  leaderId : Option NodeId := none
  config : RaftConfig
  storage : MemStorage
  commitIndex : ℕ
  lastApplied : ℕ
  nextIndex : OrdMap NodeId ℕ := ∅
  matchIndex : OrdMap NodeId ℕ := ∅
  snapshotNextOffset : OrdMap NodeId ℕ := ∅
  snapshotRx : Option SnapshotRx := none
  sm : machine.State

/-- The effect of one membership change on the voters and learners. -/
def applyMembershipDelta (members : NodeSet × NodeSet) : MembershipChange → NodeSet × NodeSet
  | .addVoter node => (members.1.insert node, members.2.erase node)
  | .removeVoter node => (members.1.erase node, members.2)
  | .addLearner node =>
    if node ∈ members.1 then members else (members.1, members.2.insert node)
  | .promoteLearner node => (members.1.insert node, members.2.erase node)
  | .removeLearner node => (members.1, members.2.erase node)

/-- The effect of one log entry on the membership: only a membership change has one. -/
def applyEntryDelta (members : NodeSet × NodeSet) (entry : LogEntry) : NodeSet × NodeSet :=
  match entry.payload with
  | .configChange change => applyMembershipDelta members change
  | _ => members

namespace MemStorage

/-- Replay the surviving log entries up to an index over a membership. -/
def configThrough (storage : MemStorage) (baseline : NodeSet × NodeSet) (last : ℕ) : NodeSet × NodeSet :=
  (List.range' storage.logStartIndex (last + 1 - storage.logStartIndex)).foldl
    (fun members index => (storage.entryAt index).elim members (applyEntryDelta members)) baseline

end MemStorage

namespace RaftNode

variable {machine : StateMachine}

section

variable (node : RaftNode machine)

/-- The members as of an index of the log. -/
def configAt (index : ℕ) : NodeSet × NodeSet :=
  node.storage.configThrough node.configBaseline (min node.storage.lastLogIndex index)

/-- The members are those of the whole log, committed or not. -/
def recomputeConfigFromLog : RaftNode machine :=
  let members := node.storage.configThrough node.configBaseline node.storage.lastLogIndex
  { node with voters := members.1, learners := members.2 }

/-- Build a node over its storage: a fresh one, or one that restarts from what it persisted. -/
def withStateMachine (id : NodeId) (voters : NodeSet) (storage : MemStorage)
    (config : RaftConfig) (sm : machine.State) : RaftNode machine :=
  let baseline := storage.loadConfigBaseline.getD (voters, ∅)
  recomputeConfigFromLog
    { id
      voters := baseline.1
      learners := baseline.2
      configBaseline := baseline
      config
      storage
      commitIndex := storage.loadSnapshot.elim 0 (·.1.lastIncludedIndex)
      lastApplied := storage.loadSnapshot.elim 0 (·.1.lastIncludedIndex)
      sm := storage.loadSnapshot.elim sm fun snapshot => machine.restore sm snapshot.2 }

def majority : ℕ := node.voters.size / 2 + 1

/-- The later last term wins, then the longer log. -/
def candidateLogUpToDate (lastIndex lastTerm : ℕ) : Bool :=
  if lastTerm = node.storage.lastLogTerm then node.storage.lastLogIndex ≤ lastIndex
  else node.storage.lastLogTerm < lastTerm

def minElectionTimeout : ℕ := node.config.electionTimeoutBase

/-- Whether a leader was heard of within the shortest timeout. -/
def leaderIsFresh (now : ℕ) : Bool :=
  match node.lastLeaderContact with
  | some since => now - since < node.minElectionTimeout
  | none => false

/-- Whether a majority, the node itself counted, was heard of lately. -/
def hasQuorumContact (now : ℕ) : Bool :=
  let fresh := node.voters.toList.countP fun peer =>
    peer ≠ node.id ∧ (node.quorumContact.get? peer).any fun since => now - since < node.minElectionTimeout
  node.majority ≤ fresh + if node.id ∈ node.voters then 1 else 0

def committedConfigContainsSelf : Bool :=
  node.id ∈ (node.configAt node.commitIndex).1

/-- Whether a membership change sits above the commit index in the node's own log. -/
def membershipChangeInFlight : Bool :=
  let start := max node.storage.logStartIndex (node.commitIndex + 1)
  (List.range' start (node.storage.lastLogIndex + 1 - start)).any fun index =>
    ((node.storage.entryAt index).bind (·.payload.change?)).isSome

/-- The copies of an index a leader counts: its own, if it is a voter, and each voter's
whose match index has reached it. -/
def replicatedCount (index : ℕ) : ℕ :=
  (node.matchIndex.toList.countP fun binding => binding.1 ∈ node.voters ∧ index ≤ binding.2) +
    if node.id ∈ node.voters then 1 else 0

end

/-- Scan down from an index for the highest one a leader may commit. -/
def highestCommittable (node : RaftNode machine) : ℕ → ℕ
  | 0 => node.commitIndex
  | index + 1 =>
    if index + 1 ≤ node.commitIndex then node.commitIndex
    else if node.storage.termAt (index + 1) = node.storage.currentTerm ∧
        node.majority ≤ node.replicatedCount (index + 1) then index + 1
    else node.highestCommittable index

/-- Everyone the node sends its log to. -/
def peers (node : RaftNode machine) : List NodeId :=
  (node.voters.toList ++ node.learners.toList).filter (· ≠ node.id)

end RaftNode

/-- What every node of the cluster is built from. -/
structure Setup (machine : StateMachine) where
  voters : NodeSet
  config : NodeId → RaftConfig
  blank : NodeId → machine.State

def Setup.build {machine : StateMachine} (setup : Setup machine) (id : NodeId)
    (storage : MemStorage) : RaftNode machine :=
  .withStateMachine id setup.voters storage (setup.config id) (setup.blank id)

/-- The values a step's randomness returns, in order; zero once they run out. -/
abbrev RaftRng := List ℕ

/-- A draw below the bound; the draws are given. -/
def RaftRng.genBelow (rng : RaftRng) (bound : ℕ) : ℕ × RaftRng :=
  match rng with
  | [] => (0, [])
  | draw :: rest => (if bound = 0 then 0 else draw % bound, rest)

/-- What the node asks of its host. -/
structure Effects where
  sends : List (NodeId × RaftMsg) := []
  timerOps : List TimerOp := []
  committedThrough : Option ℕ := none

/-- A storage write, with the commit index the node held and the entries the step had applied
when it made it. -/
structure Write where
  op : StorageOp
  commitIndex : ℕ
  applied : List LogEntry
deriving DecidableEq

/-- A step in progress. `writes`, `applied` and `shipped` record what the step has written, what
it has applied, and the storage of each snapshot chunk it has sent; no handler reads them. -/
structure Ctx (machine : StateMachine) where
  node : RaftNode machine
  rng : RaftRng
  out : Effects := {}
  writes : List Write := []
  applied : List LogEntry := []
  shipped : List MemStorage := []

/-- The context a step ends in, or the one in which it panicked. -/
abbrev Outcome (machine : StateMachine) := Except (Ctx machine) (Ctx machine)

namespace Ctx

variable {machine : StateMachine}

def send (ctx : Ctx machine) (dest : NodeId) (msg : RaftMsg) : Ctx machine :=
  { ctx with out.sends := ctx.out.sends ++ [(dest, msg)] }

def setTimer (ctx : Ctx machine) (token after : ℕ) : Ctx machine :=
  { ctx with out.timerOps := ctx.out.timerOps ++ [.set token after] }

def cancelTimer (ctx : Ctx machine) (token : ℕ) : Ctx machine :=
  { ctx with out.timerOps := ctx.out.timerOps ++ [.cancel token] }

def noteCommittedThrough (ctx : Ctx machine) (index : ℕ) : Ctx machine :=
  { ctx with
    out.committedThrough := some (ctx.out.committedThrough.elim index (max · index)) }

/-- Every write is noted with the commit index at its time. -/
def write (ctx : Ctx machine) (op : StorageOp) : Ctx machine :=
  { ctx with
    node.storage := ctx.node.storage.write op
    writes := ctx.writes ++ [⟨op, ctx.node.commitIndex, ctx.applied⟩] }

/-- The timeout is drawn anew each time. -/
def armElectionTimer (ctx : Ctx machine) : Ctx machine :=
  let draw := ctx.rng.genBelow ctx.node.config.electionTimeoutJitter
  { ctx with rng := draw.2 }.setTimer electionTimeout (ctx.node.config.electionTimeoutBase + draw.1)

def armElectionTimerNow (ctx : Ctx machine) : Ctx machine :=
  ctx.setTimer electionTimeout ctx.node.config.electionTimeoutBase

def recomputeConfigFromLog (ctx : Ctx machine) : Ctx machine :=
  { ctx with node := ctx.node.recomputeConfigFromLog }

end Ctx

end IronCache.Raft
