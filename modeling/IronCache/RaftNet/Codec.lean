import IronCache.RaftNet.Record

/-!
# The wire codec of the Raft messages

The wire codec of `ironcache-raft-net/src/codec.rs`. What it shares with the durable log is taken
from there.
-/

namespace IronCache.RaftNet

open Codec Raft

namespace Wire

@[match_pattern] abbrev msgRequestVote : UInt8 := 1
@[match_pattern] abbrev msgRequestVoteResp : UInt8 := 2
@[match_pattern] abbrev msgAppendEntries : UInt8 := 3
@[match_pattern] abbrev msgAppendEntriesResp : UInt8 := 4
@[match_pattern] abbrev msgPropose : UInt8 := 5
@[match_pattern] abbrev msgForwardPropose : UInt8 := 6
@[match_pattern] abbrev msgForwardProposeResult : UInt8 := 7
@[match_pattern] abbrev msgInstallSnapshot : UInt8 := 8
@[match_pattern] abbrev msgInstallSnapshotResp : UInt8 := 9
@[match_pattern] abbrev msgPreVote : UInt8 := 10
@[match_pattern] abbrev msgPreVoteResp : UInt8 := 11

def putBool (flag : Bool) : List UInt8 := [if flag then 1 else 0]

def putNode (node : NodeId) : List UInt8 := putU64 node

/-- A tag, then the fields of the message. -/
def encodeRaftMsg : RaftMsg → List UInt8
  | .requestVote term candidate lastLogIndex lastLogTerm =>
    msgRequestVote :: (putU64 term ++ (putNode candidate ++ (putU64 lastLogIndex ++ putU64 lastLogTerm)))
  | .requestVoteResp term voteGranted => msgRequestVoteResp :: (putU64 term ++ putBool voteGranted)
  | .preVote term candidate lastLogIndex lastLogTerm =>
    msgPreVote :: (putU64 term ++ (putNode candidate ++ (putU64 lastLogIndex ++ putU64 lastLogTerm)))
  | .preVoteResp term voteGranted => msgPreVoteResp :: (putU64 term ++ putBool voteGranted)
  -- The commit index stands before the entries on the wire.
  | .appendEntries term leader prevLogIndex prevLogTerm entries leaderCommit =>
    msgAppendEntries :: (putU64 term ++ (putNode leader ++ (putU64 prevLogIndex ++
      (putU64 prevLogTerm ++ (putU64 leaderCommit ++
        (putU64 entries.length ++ entries.flatMap putEntry))))))
  | .appendEntriesResp term success matchIndex =>
    msgAppendEntriesResp :: (putU64 term ++ (putBool success ++ putU64 matchIndex))
  | .propose payload => msgPropose :: putPayload payload
  | .forwardPropose corr payload => msgForwardPropose :: (putU64 corr ++ putPayload payload)
  -- A missing outcome is still followed by an index, which the reader drops.
  | .forwardProposeResult corr outcome =>
    msgForwardProposeResult :: (putU64 corr ++
      match outcome with
      | some index => putBool true ++ putU64 index
      | none => putBool false ++ putU64 0)
  | .installSnapshot term leaderId lastIncludedIndex lastIncludedTerm offset data done voters learners =>
      msgInstallSnapshot :: (putU64 term ++ (putNode leaderId ++ (putU64 lastIncludedIndex ++
        (putU64 lastIncludedTerm ++ (putU64 offset ++ (putBlob data ++ (putBool done ++
          (putNodeSet voters ++ putNodeSet learners))))))))
  | .installSnapshotResp term lastIncludedIndex installed nextOffset =>
    msgInstallSnapshotResp :: (putU64 term ++ (putU64 lastIncludedIndex ++
      (putBool installed ++ putU64 nextOffset)))

def node : Reader NodeId := u64

/-- Any byte but zero is true. -/
def bool : Reader Bool := (fun flag => flag ≠ 0) <$> byte

/-- Unlike the durable log, the wire looks at the discriminant before it reads the node. -/
def getMembership : Reader MembershipChange := do
  match (← byte) with
  | memberAddVoter => return .addVoter (← node)
  | memberRemoveVoter => return .removeVoter (← node)
  | memberAddLearner => return .addLearner (← node)
  | memberPromoteLearner => return .promoteLearner (← node)
  | memberRemoveLearner => return .removeLearner (← node)
  | _ => failure

def getPayload : Reader EntryPayload := payloadBy getMembership

def getEntry : Reader LogEntry := entryBy getPayload

/-- The number of entries, then the entries. -/
def getEntries : Reader (List LogEntry) := do
  let count ← u64
  many getEntry count

/-- Fails on a tag that no message has. -/
def getRaftMsg : Reader RaftMsg := do
  match (← byte) with
  | msgRequestVote => return .requestVote (← u64) (← node) (← u64) (← u64)
  | msgRequestVoteResp => return .requestVoteResp (← u64) (← bool)
  | msgPreVote => return .preVote (← u64) (← node) (← u64) (← u64)
  | msgPreVoteResp => return .preVoteResp (← u64) (← bool)
  | msgAppendEntries =>
    let term ← u64
    let leader ← node
    let prevLogIndex ← u64
    let prevLogTerm ← u64
    let leaderCommit ← u64
    let entries ← getEntries
    return .appendEntries term leader prevLogIndex prevLogTerm entries leaderCommit
  | msgAppendEntriesResp => return .appendEntriesResp (← u64) (← bool) (← u64)
  | msgPropose => return .propose (← getPayload)
  | msgForwardPropose => return .forwardPropose (← u64) (← getPayload)
  | msgForwardProposeResult =>
    let corr ← u64
    let present ← bool
    let index ← u64
    return .forwardProposeResult corr (if present then some index else none)
  | msgInstallSnapshot =>
    return .installSnapshot (← u64) (← node) (← u64) (← u64) (← u64) (← blob) (← bool)
      (← readNodeSet) (← readNodeSet)
  | msgInstallSnapshotResp => return .installSnapshotResp (← u64) (← u64) (← bool) (← u64)
  | _ => failure

/-- Bytes left over refuse the message. -/
def decodeRaftMsg (bytes : List UInt8) : Option RaftMsg := readAll getRaftMsg bytes

/-- Every number of the message fits the machine type it has in the source. -/
def RaftMsg.Fits : RaftMsg → Prop
  | .requestVote term candidate lastLogIndex lastLogTerm
  | .preVote term candidate lastLogIndex lastLogTerm =>
    term < 256 ^ 8 ∧ candidate < 256 ^ 8 ∧ lastLogIndex < 256 ^ 8 ∧ lastLogTerm < 256 ^ 8
  | .requestVoteResp term _ | .preVoteResp term _ => term < 256 ^ 8
  | .appendEntries term leader prevLogIndex prevLogTerm entries leaderCommit =>
    term < 256 ^ 8 ∧ leader < 256 ^ 8 ∧ prevLogIndex < 256 ^ 8 ∧ prevLogTerm < 256 ^ 8 ∧
      leaderCommit < 256 ^ 8 ∧ entries.length < 256 ^ 8 ∧ ∀ entry ∈ entries, LogEntry.Fits entry
  | .appendEntriesResp term _ matchIndex => term < 256 ^ 8 ∧ matchIndex < 256 ^ 8
  | .propose payload => EntryPayload.Fits payload
  | .forwardPropose corr payload => corr < 256 ^ 8 ∧ EntryPayload.Fits payload
  | .forwardProposeResult corr outcome => corr < 256 ^ 8 ∧ ∀ index ∈ outcome, index < 256 ^ 8
  | .installSnapshot term leaderId lastIncludedIndex lastIncludedTerm offset data _ voters learners =>
      term < 256 ^ 8 ∧ leaderId < 256 ^ 8 ∧ lastIncludedIndex < 256 ^ 8 ∧
        lastIncludedTerm < 256 ^ 8 ∧ offset < 256 ^ 8 ∧ data.length < 256 ^ 8 ∧
        FitsNodes voters ∧ FitsNodes learners
  | .installSnapshotResp term lastIncludedIndex _ nextOffset =>
    term < 256 ^ 8 ∧ lastIncludedIndex < 256 ^ 8 ∧ nextOffset < 256 ^ 8

theorem reads_node (fits : value < 256 ^ 8) : Reads node (putNode value) value := reads_u64 fits

private theorem reads_bool : Reads bool (putBool flag) flag := by
  cases flag with
  | false => exact reads_byte.map _
  | true => exact reads_byte.map _

theorem reads_membership (change : MembershipChange) (fits : MembershipChange.Fits change) :
    Reads getMembership (putMembership change) change := by
  cases change with
  | addVoter => exact reads_byte.bind ((reads_node fits).last _)
  | removeVoter => exact reads_byte.bind ((reads_node fits).last _)
  | addLearner => exact reads_byte.bind ((reads_node fits).last _)
  | promoteLearner => exact reads_byte.bind ((reads_node fits).last _)
  | removeLearner => exact reads_byte.bind ((reads_node fits).last _)

private theorem reads_entries (short : entries.length < 256 ^ 8)
    (fits : ∀ entry ∈ entries, LogEntry.Fits entry) :
    Reads getEntries (putU64 entries.length ++ entries.flatMap putEntry) entries :=
  (reads_u64 short).bind (reads_many fun entry member => reads_entry reads_membership (fits entry member))

private theorem reads_raftMsg (fits : RaftMsg.Fits msg) : Reads getRaftMsg (encodeRaftMsg msg) msg := by
  cases msg with
  | requestVote term candidate lastLogIndex lastLogTerm =>
    obtain ⟨termFits, candidateFits, indexFits, lastTermFits⟩ := fits
    exact reads_byte.bind ((reads_u64 termFits).bind
      ((reads_node candidateFits).bind ((reads_u64 indexFits).bind
        ((reads_u64 lastTermFits).last _))))
  | requestVoteResp term voteGranted =>
    exact reads_byte.bind ((reads_u64 fits).bind (reads_bool.last _))
  | preVote term candidate lastLogIndex lastLogTerm =>
    obtain ⟨termFits, candidateFits, indexFits, lastTermFits⟩ := fits
    exact reads_byte.bind ((reads_u64 termFits).bind
      ((reads_node candidateFits).bind ((reads_u64 indexFits).bind
        ((reads_u64 lastTermFits).last _))))
  | preVoteResp term voteGranted =>
    exact reads_byte.bind ((reads_u64 fits).bind (reads_bool.last _))
  | appendEntries term leader prevLogIndex prevLogTerm entries leaderCommit =>
    obtain ⟨termFits, leaderFits, indexFits, prevFits, commitFits, short, entriesFit⟩ := fits
    exact reads_byte.bind ((reads_u64 termFits).bind
      ((reads_node leaderFits).bind ((reads_u64 indexFits).bind ((reads_u64 prevFits).bind
        ((reads_u64 commitFits).bind ((reads_entries short entriesFit).last _))))))
  | appendEntriesResp term success matchIndex =>
    exact reads_byte.bind ((reads_u64 fits.1).bind (reads_bool.bind ((reads_u64 fits.2).last _)))
  | propose payload => exact reads_byte.bind ((reads_payload reads_membership fits).last _)
  | forwardPropose corr payload =>
    exact reads_byte.bind ((reads_u64 fits.1).bind ((reads_payload reads_membership fits.2).last _))
  | forwardProposeResult corr outcome =>
    cases outcome with
    | none =>
      exact reads_byte.bind ((reads_u64 fits.1).bind (reads_bool.bind ((reads_u64 (by decide)).last _)))
    | some index =>
      exact reads_byte.bind ((reads_u64 fits.1).bind
        (reads_bool.bind ((reads_u64 (fits.2 index rfl)).last _)))
  | installSnapshot term leaderId lastIncludedIndex lastIncludedTerm offset data done voters learners =>
      obtain ⟨termFits, leaderFits, indexFits, lastTermFits, offsetFits, dataFits, votersFit,
        learnersFit⟩ := fits
      exact reads_byte.bind ((reads_u64 termFits).bind
        ((reads_node leaderFits).bind ((reads_u64 indexFits).bind ((reads_u64 lastTermFits).bind
          ((reads_u64 offsetFits).bind ((reads_blob dataFits).bind (reads_bool.bind
            ((reads_nodeSet votersFit).bind ((reads_nodeSet learnersFit).last _)))))))))
  | installSnapshotResp term lastIncludedIndex installed nextOffset =>
    exact reads_byte.bind ((reads_u64 fits.1).bind
      ((reads_u64 fits.2.1).bind (reads_bool.bind ((reads_u64 fits.2.2).last _))))

theorem steady_u16 : Steady u16 := .le 2

theorem steady_u64 : Steady u64 := .le 8

theorem steady_node : Steady node := steady_u64

private theorem steady_bool : Steady bool := Steady.byte.map _

theorem steady_blob : Steady blob := steady_u64.bind .take

private theorem steady_string : Steady string := by
  refine steady_blob.bind fun bytes => ?_
  split
  · exact .pure _
  · exact .failure

private theorem steady_slots : Steady getSlots := steady_u64.bind steady_u16.many

private theorem steady_nodeSet : Steady readNodeSet :=
  steady_u64.bind fun count => (steady_u64.many count).last

private theorem steady_config : Steady getConfig := by
  refine Steady.byte.bind fun tag => ?_
  split
  · exact steady_string.bind fun _ => steady_string.bind fun _ => steady_u16.last
  · exact steady_string.last
  · exact steady_u16.bind fun _ => steady_string.last
  · exact steady_string.bind fun _ => steady_slots.last
  · exact steady_u64.last
  · exact steady_slots.last
  · exact steady_string.bind fun _ => steady_slots.last
  · exact steady_slots.bind fun _ => steady_string.last
  · exact steady_u16.bind fun _ => steady_string.last
  · exact steady_u16.bind fun _ => steady_string.bind fun _ => steady_string.last
  · exact steady_u16.last
  · exact .failure

private theorem steady_membership : Steady getMembership := by
  refine Steady.byte.bind fun tag => ?_
  split
  case h_6 => exact .failure
  all_goals exact steady_node.last

theorem steady_payload : Steady getPayload := by
  refine Steady.byte.bind fun tag => ?_
  split
  · exact .pure _
  · exact steady_blob.last
  · exact steady_config.last
  · exact steady_membership.last
  · exact .failure

private theorem steady_entry : Steady getEntry :=
  steady_u64.bind fun _ => steady_u64.bind fun _ => steady_payload.last

private theorem steady_entries : Steady getEntries := steady_u64.bind steady_entry.many

private theorem steady_raftMsg : Steady getRaftMsg := by
  have fourNumbers (make : ℕ → ℕ → ℕ → ℕ → RaftMsg) :
      Steady (do return make (← u64) (← node) (← u64) (← u64)) :=
    steady_u64.bind fun _ => steady_node.bind fun _ => steady_u64.bind fun _ =>
      steady_u64.last
  have flagged (make : ℕ → Bool → RaftMsg) : Steady (do return make (← u64) (← bool)) :=
    steady_u64.bind fun _ => steady_bool.last
  refine Steady.byte.bind fun tag => ?_
  split
  · exact fourNumbers .requestVote
  · exact flagged .requestVoteResp
  · exact fourNumbers .preVote
  · exact flagged .preVoteResp
  · exact steady_u64.bind fun _ => steady_node.bind fun _ => steady_u64.bind fun _ =>
      steady_u64.bind fun _ => steady_u64.bind fun _ => steady_entries.last
  · exact steady_u64.bind fun _ => steady_bool.bind fun _ => steady_u64.last
  · exact steady_payload.last
  · exact steady_u64.bind fun _ => steady_payload.last
  · exact steady_u64.bind fun _ => steady_bool.bind fun _ => steady_u64.last
  · exact steady_u64.bind fun _ => steady_node.bind fun _ => steady_u64.bind fun _ =>
      steady_u64.bind fun _ => steady_u64.bind fun _ => steady_blob.bind fun _ =>
      steady_bool.bind fun _ => steady_nodeSet.bind fun _ => steady_nodeSet.last
  · exact steady_u64.bind fun _ => steady_u64.bind fun _ => steady_bool.bind fun _ =>
      steady_u64.last
  · exact .failure

/-- The two codecs are faithful: a message and a record are read back as they were written, and
no frame cut short or followed by more bytes is taken for a message. -/
theorem codecs_faithful : (∀ msg, RaftMsg.Fits msg → decodeRaftMsg (encodeRaftMsg msg) = some msg ∧
      (∀ part, part <+: encodeRaftMsg msg → part ≠ encodeRaftMsg msg → decodeRaftMsg part = none) ∧
      ∀ more, more ≠ [] → decodeRaftMsg (encodeRaftMsg msg ++ more) = none) ∧
    ∀ record, Record.Fits record → decodeBody (encodeBody record) = some record := by
  refine ⟨fun msg fits => ⟨?_, ?_, ?_⟩, fun record => decodeBody_encodeBody⟩
  · exact readAll_of_reads (reads_raftMsg fits)
  · intro part cut proper
    exact readAll_cut steady_raftMsg (reads_raftMsg fits) cut proper
  · intro more extra
    exact readAll_append (reads_raftMsg fits) extra

/-- An append with an entry of every payload. -/
def sampleAppend : RaftMsg :=
  .appendEntries 3 1 4 2 [⟨3, 5, .noop⟩, ⟨3, 6, .bytes [1, 2]⟩, ⟨3, 7, .config (.setSlotImporting 9 "a" "b")⟩,
      ⟨3, 8, .configChange (.promoteLearner 4)⟩] 4

theorem codecs_faithful_sampleAppend : decodeRaftMsg (encodeRaftMsg sampleAppend) = some sampleAppend ∧
      decodeRaftMsg ((encodeRaftMsg sampleAppend).take 60) = none ∧
      decodeRaftMsg (encodeRaftMsg sampleAppend ++ [0]) = none ∧
      decodeBody (encodeBody (.setVote (some 2))) = some (.setVote (some 2)) := by
  have fits : RaftMsg.Fits sampleAppend := by
    simp [sampleAppend, RaftMsg.Fits, LogEntry.Fits, EntryPayload.Fits, ConfigCmd.Fits,
      MembershipChange.Fits, FitsText]
    decide
  obtain ⟨whole, cut, extra⟩ := codecs_faithful.1 sampleAppend fits
  refine ⟨whole, cut _ (List.take_prefix _ _) ?_, extra [0] (by simp), ?_⟩
  · intro same
    have length := congrArg List.length same
    exact absurd length (by decide +kernel)
  · exact codecs_faithful.2 (.setVote (some 2)) (by simp [Record.Fits])

end Wire

end IronCache.RaftNet
