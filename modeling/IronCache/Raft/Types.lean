import IronCache.Lib.OrdSet

/-!
# Raft data types

The data of the `ironcache-raft` engine. The release profile turns an overflow into an abort, so
that numbers are natural.
-/

namespace IronCache.Raft

abbrev NodeId := ℕ

abbrev NodeSet := OrdSet NodeId

inductive Role where
  | follower
  | candidate
  | leader
deriving DecidableEq, Repr

inductive MembershipChange where
  | addVoter (node : NodeId)
  | removeVoter (node : NodeId)
  | addLearner (node : NodeId)
  | promoteLearner (node : NodeId)
  | removeLearner (node : NodeId)
deriving DecidableEq, Repr

/-- A command of the replicated cluster configuration. -/
inductive ConfigCmd where
  | addNode (id host : String) (port : ℕ)
  | removeNode (id : String)
  | setSlotOwner (slot : ℕ) (node : String)
  | assignSlots (node : String) (slots : List ℕ)
  | unassignSlots (slots : List ℕ)
  | setConfigEpoch (epoch : ℕ)
  | assignReplica (node : String) (slots : List ℕ)
  | promoteReplica (slots : List ℕ) (newPrimary : String)
  | setSlotMigrating (slot : ℕ) (dest : String)
  | setSlotImporting (slot : ℕ) (src dest : String)
  | setSlotStable (slot : ℕ)
deriving DecidableEq, Repr

inductive EntryPayload where
  | noop
  | bytes (data : List UInt8)
  | config (command : ConfigCmd)
  | configChange (change : MembershipChange)
deriving DecidableEq, Repr

def EntryPayload.change? : EntryPayload → Option MembershipChange
  | .configChange change => some change
  | _ => none

structure LogEntry where
  term : ℕ
  index : ℕ
  payload : EntryPayload
deriving DecidableEq, Repr

structure SnapshotMeta where
  lastIncludedIndex : ℕ
  lastIncludedTerm : ℕ
deriving DecidableEq, Repr

inductive RaftMsg where
  | requestVote (term : ℕ) (candidate : NodeId) (lastLogIndex lastLogTerm : ℕ)
  | requestVoteResp (term : ℕ) (voteGranted : Bool)
  | preVote (term : ℕ) (candidate : NodeId) (lastLogIndex lastLogTerm : ℕ)
  | preVoteResp (term : ℕ) (voteGranted : Bool)
  | appendEntries (term : ℕ) (leader : NodeId) (prevLogIndex prevLogTerm : ℕ)
      (entries : List LogEntry) (leaderCommit : ℕ)
  | appendEntriesResp (term : ℕ) (success : Bool) (matchIndex : ℕ)
  | propose (payload : EntryPayload)
  | forwardPropose (corr : ℕ) (payload : EntryPayload)
  | forwardProposeResult (corr : ℕ) (outcome : Option ℕ)
  | installSnapshot (term : ℕ) (leaderId : NodeId) (lastIncludedIndex lastIncludedTerm : ℕ)
      (offset : ℕ) (data : List UInt8) (done : Bool) (voters learners : NodeSet)
  | installSnapshotResp (term : ℕ) (lastIncludedIndex : ℕ) (installed : Bool) (nextOffset : ℕ)
deriving DecidableEq

/-- The index and term of the snapshot a message carries a chunk of. -/
def RaftMsg.snapshot? : RaftMsg → Option SnapshotMeta
  | .installSnapshot _ _ index term _ _ _ _ _ => some ⟨index, term⟩
  | _ => none

inductive TimerOp where
  | set (token : ℕ) (after : ℕ)
  | cancel (token : ℕ)
deriving DecidableEq, Repr

structure RaftConfig where
  electionTimeoutBase : ℕ := 150
  electionTimeoutJitter : ℕ := 150
  heartbeatInterval : ℕ := 50
  snapshotThreshold : ℕ := 0
  snapshotChunkBytes : ℕ := 256 * 1024
  preVote : Bool := true
  checkQuorum : Bool := true
deriving DecidableEq, Repr

def electionTimeout : ℕ := 0

def heartbeat : ℕ := 1

def preVoteFallbackRounds : ℕ := 3

/-- The state machine a node drives: its state, the effect of one committed entry, and
the bytes it is dumped to and rebuilt from. -/
structure StateMachine where
  State : Type
  apply : State → LogEntry → State
  snapshot : State → List UInt8
  restore : State → List UInt8 → State

end IronCache.Raft
