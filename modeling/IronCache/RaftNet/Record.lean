import IronCache.Lib.Framing
import IronCache.Raft.Types

/-!
# The records of the durable log

A record as `ironcache-raft-net/src/storage.rs` writes and reads it. It is read back when its
numbers fit their machine types.
-/

namespace IronCache.RaftNet

open Codec Raft

/-- A record of the durable log. -/
inductive Record where
  | setTerm (term : ℕ)
  | setVote (vote : Option NodeId)
  | appendEntry (entry : LogEntry)
  | truncate (index : ℕ)
deriving DecidableEq

@[match_pattern] abbrev recSetTerm : UInt8 := 1
@[match_pattern] abbrev recSetVote : UInt8 := 2
@[match_pattern] abbrev recAppendEntry : UInt8 := 3
@[match_pattern] abbrev recTruncate : UInt8 := 4

@[match_pattern] abbrev payloadNoop : UInt8 := 0
@[match_pattern] abbrev payloadBytes : UInt8 := 1
@[match_pattern] abbrev payloadConfig : UInt8 := 2
@[match_pattern] abbrev payloadConfigChange : UInt8 := 3

@[match_pattern] abbrev memberAddVoter : UInt8 := 0
@[match_pattern] abbrev memberRemoveVoter : UInt8 := 1
@[match_pattern] abbrev memberAddLearner : UInt8 := 2
@[match_pattern] abbrev memberPromoteLearner : UInt8 := 3
@[match_pattern] abbrev memberRemoveLearner : UInt8 := 4

@[match_pattern] abbrev cfgAddNode : UInt8 := 0
@[match_pattern] abbrev cfgRemoveNode : UInt8 := 1
@[match_pattern] abbrev cfgSetSlotOwner : UInt8 := 2
@[match_pattern] abbrev cfgAssignSlots : UInt8 := 3
@[match_pattern] abbrev cfgSetConfigEpoch : UInt8 := 4
@[match_pattern] abbrev cfgAssignReplica : UInt8 := 5
@[match_pattern] abbrev cfgPromoteReplica : UInt8 := 6
@[match_pattern] abbrev cfgSetSlotMigrating : UInt8 := 7
@[match_pattern] abbrev cfgSetSlotImporting : UInt8 := 8
@[match_pattern] abbrev cfgSetSlotStable : UInt8 := 9
@[match_pattern] abbrev cfgUnassignSlots : UInt8 := 10

def putU64 (value : ℕ) : List UInt8 := leBytes 8 value

def putU16 (value : ℕ) : List UInt8 := leBytes 2 value

/-- The length, then the bytes. -/
def putBlob (bytes : List UInt8) : List UInt8 := putU64 bytes.length ++ bytes

def putStr (text : String) : List UInt8 := putBlob text.toUTF8.data.toList

/-- The number of slots, then the slots. -/
def putSlots (slots : List ℕ) : List UInt8 := putU64 slots.length ++ slots.flatMap putU16

def putNodeSet (nodes : NodeSet) : List UInt8 :=
  putU64 nodes.size ++ nodes.toList.flatMap putU64

/-- A tag, then what the command names. -/
def putConfig : ConfigCmd → List UInt8
  | .addNode id host port => cfgAddNode :: (putStr id ++ (putStr host ++ putU16 port))
  | .removeNode id => cfgRemoveNode :: putStr id
  | .setSlotOwner slot node => cfgSetSlotOwner :: (putU16 slot ++ putStr node)
  | .assignSlots node slots => cfgAssignSlots :: (putStr node ++ putSlots slots)
  | .unassignSlots slots => cfgUnassignSlots :: putSlots slots
  | .setConfigEpoch epoch => cfgSetConfigEpoch :: putU64 epoch
  | .assignReplica node slots => cfgAssignReplica :: (putStr node ++ putSlots slots)
  | .promoteReplica slots newPrimary => cfgPromoteReplica :: (putSlots slots ++ putStr newPrimary)
  | .setSlotMigrating slot dest => cfgSetSlotMigrating :: (putU16 slot ++ putStr dest)
  | .setSlotImporting slot src dest =>
    cfgSetSlotImporting :: (putU16 slot ++ (putStr src ++ putStr dest))
  | .setSlotStable slot => cfgSetSlotStable :: putU16 slot

/-- A tag, then the node. -/
def putMembership : MembershipChange → List UInt8
  | .addVoter node => memberAddVoter :: putU64 node
  | .removeVoter node => memberRemoveVoter :: putU64 node
  | .addLearner node => memberAddLearner :: putU64 node
  | .promoteLearner node => memberPromoteLearner :: putU64 node
  | .removeLearner node => memberRemoveLearner :: putU64 node

/-- A tag, then what the entry carries. -/
def putPayload : EntryPayload → List UInt8
  | .noop => [payloadNoop]
  | .bytes data => payloadBytes :: putBlob data
  | .config command => payloadConfig :: putConfig command
  | .configChange change => payloadConfigChange :: putMembership change

/-- The term and the index before the payload. -/
def putEntry (entry : LogEntry) : List UInt8 :=
  putU64 entry.term ++ (putU64 entry.index ++ putPayload entry.payload)

/-- The record without its frame. -/
def encodeBody : Record → List UInt8
  | .setTerm term => recSetTerm :: putU64 term
  | .setVote none => [recSetVote, 0]
  | .setVote (some candidate) => recSetVote :: 1 :: putU64 candidate
  | .appendEntry entry => recAppendEntry :: putEntry entry
  | .truncate index => recTruncate :: putU64 index

def u16 : Reader ℕ := le 2

def u64 : Reader ℕ := le 8

def blob : Reader (List UInt8) := do
  let length ← u64
  take length

/-- Fails on bytes that are not UTF-8. -/
def string : Reader String := do
  let bytes ← blob
  match String.fromUTF8? ⟨bytes.toArray⟩ with
  | some text => return text
  | none => failure

def getSlots : Reader (List ℕ) := do
  let count ← u64
  many u16 count

/-- A node given twice is read once. -/
def readNodeSet : Reader NodeSet := do
  let count ← u64
  let nodes ← many u64 count
  return OrdSet.ofList nodes

/-- Fails on a tag that no command has. -/
def getConfig : Reader ConfigCmd := do
  match (← byte) with
  | cfgAddNode => return .addNode (← string) (← string) (← u16)
  | cfgRemoveNode => return .removeNode (← string)
  | cfgSetSlotOwner => return .setSlotOwner (← u16) (← string)
  | cfgAssignSlots => return .assignSlots (← string) (← getSlots)
  | cfgSetConfigEpoch => return .setConfigEpoch (← u64)
  | cfgUnassignSlots => return .unassignSlots (← getSlots)
  | cfgAssignReplica => return .assignReplica (← string) (← getSlots)
  | cfgPromoteReplica => return .promoteReplica (← getSlots) (← string)
  | cfgSetSlotMigrating => return .setSlotMigrating (← u16) (← string)
  | cfgSetSlotImporting => return .setSlotImporting (← u16) (← string) (← string)
  | cfgSetSlotStable => return .setSlotStable (← u16)
  | _ => failure

/-- The node is read before the tag is judged. -/
def getMembership : Reader MembershipChange := do
  let tag ← byte
  let node ← u64
  match tag with
  | memberAddVoter => return .addVoter node
  | memberRemoveVoter => return .removeVoter node
  | memberAddLearner => return .addLearner node
  | memberPromoteLearner => return .promoteLearner node
  | memberRemoveLearner => return .removeLearner node
  | _ => failure

/-- A payload, by the reader of its membership change. Fails on a tag that no payload has. -/
def payloadBy (membership : Reader MembershipChange) : Reader EntryPayload := do
  match (← byte) with
  | payloadNoop => return .noop
  | payloadBytes => return .bytes (← blob)
  | payloadConfig => return .config (← getConfig)
  | payloadConfigChange => return .configChange (← membership)
  | _ => failure

def getPayload : Reader EntryPayload := payloadBy getMembership

def entryBy (payload : Reader EntryPayload) : Reader LogEntry := do
  let term ← u64
  let index ← u64
  return ⟨term, index, ← payload⟩

def getEntry : Reader LogEntry := entryBy getPayload

/-- Fails on a flag other than 0 and 1. -/
def getVote : Reader (Option NodeId) := do
  match (← byte) with
  | 0 => return none
  | 1 => return some (← u64)
  | _ => failure

def getRecord : Reader Record := do
  match (← byte) with
  | recSetTerm => return .setTerm (← u64)
  | recSetVote => return .setVote (← getVote)
  | recAppendEntry => return .appendEntry (← getEntry)
  | recTruncate => return .truncate (← u64)
  | _ => failure

/-- Bytes left over refuse the record. -/
def decodeBody (body : List UInt8) : Option Record := readAll getRecord body

/-- The length of the text fits its field. -/
def FitsText (text : String) : Prop := text.toUTF8.data.toList.length < 256 ^ 8

/-- The slots and their number fit their fields. -/
def FitsSlots (slots : List ℕ) : Prop :=
  slots.length < 256 ^ 8 ∧ ∀ slot ∈ slots, slot < 256 ^ 2

/-- The ids and their number fit their fields. -/
def FitsNodes (nodes : NodeSet) : Prop := nodes.size < 256 ^ 8 ∧ ∀ node ∈ nodes, node < 256 ^ 8

/-- Every number of the value fits the machine type it has in the source. -/
def ConfigCmd.Fits : ConfigCmd → Prop
  | .addNode id host port => FitsText id ∧ FitsText host ∧ port < 256 ^ 2
  | .removeNode id => FitsText id
  | .setSlotOwner slot node => slot < 256 ^ 2 ∧ FitsText node
  | .assignSlots node slots => FitsText node ∧ FitsSlots slots
  | .unassignSlots slots => FitsSlots slots
  | .setConfigEpoch epoch => epoch < 256 ^ 8
  | .assignReplica node slots => FitsText node ∧ FitsSlots slots
  | .promoteReplica slots newPrimary => FitsSlots slots ∧ FitsText newPrimary
  | .setSlotMigrating slot dest => slot < 256 ^ 2 ∧ FitsText dest
  | .setSlotImporting slot src dest => slot < 256 ^ 2 ∧ FitsText src ∧ FitsText dest
  | .setSlotStable slot => slot < 256 ^ 2

def MembershipChange.Fits : MembershipChange → Prop
  | .addVoter node | .removeVoter node | .addLearner node | .promoteLearner node
  | .removeLearner node => node < 256 ^ 8

/-- Every field of the payload holds its value. -/
def EntryPayload.Fits : EntryPayload → Prop
  | .noop => True
  | .bytes data => data.length < 256 ^ 8
  | .config command => ConfigCmd.Fits command
  | .configChange change => MembershipChange.Fits change

/-- Every field of the entry holds its value. -/
def LogEntry.Fits (entry : LogEntry) : Prop :=
  entry.term < 256 ^ 8 ∧ entry.index < 256 ^ 8 ∧ EntryPayload.Fits entry.payload

/-- Every field of the record holds its value. -/
def Record.Fits : Record → Prop
  | .setTerm term => term < 256 ^ 8
  | .setVote vote => ∀ candidate ∈ vote, candidate < 256 ^ 8
  | .appendEntry entry => LogEntry.Fits entry
  | .truncate index => index < 256 ^ 8

theorem reads_u16 (fits : value < 256 ^ 2) : Reads u16 (putU16 value) value := reads_le fits

theorem reads_u64 (fits : value < 256 ^ 8) : Reads u64 (putU64 value) value := reads_le fits

theorem reads_blob (fits : bytes.length < 256 ^ 8) : Reads blob (putBlob bytes) bytes :=
  (reads_u64 fits).bind (reads_take bytes)

theorem reads_string (fits : FitsText text) : Reads string (putStr text) text := by
  have decoded : String.fromUTF8? ⟨text.toUTF8.data.toList.toArray⟩ = some text := by
    exact dif_pos text.isValidUTF8
  intro rest
  unfold string
  rw [StateT.run_bind, putStr, reads_blob fits rest]
  dsimp only [bind, Option.bind]
  rw [decoded]
  rfl

private theorem reads_slots (fits : FitsSlots slots) : Reads getSlots (putSlots slots) slots :=
  (reads_u64 fits.1).bind (reads_many fun slot member => reads_u16 (fits.2 slot member))

theorem reads_nodeSet (fits : FitsNodes nodes) : Reads readNodeSet (putNodeSet nodes) nodes := by
  have same : OrdSet.ofList nodes.toList = nodes := OrdSet.ext fun _ => OrdSet.mem_ofList
  have read : Reads readNodeSet (putNodeSet nodes) (OrdSet.ofList nodes.toList) :=
    (reads_u64 fits.1).bind ((reads_many fun node member => reads_u64 (fits.2 node member)).last _)
  rwa [same] at read

theorem reads_config (fits : ConfigCmd.Fits command) : Reads getConfig (putConfig command) command := by
  cases command with
  | addNode id host port =>
    exact reads_byte.bind ((reads_string fits.1).bind
      ((reads_string fits.2.1).bind ((reads_u16 fits.2.2).last _)))
  | removeNode id => exact reads_byte.bind ((reads_string fits).last _)
  | setSlotOwner slot node =>
    exact reads_byte.bind ((reads_u16 fits.1).bind ((reads_string fits.2).last _))
  | assignSlots node slots =>
    exact reads_byte.bind ((reads_string fits.1).bind ((reads_slots fits.2).last _))
  | unassignSlots slots => exact reads_byte.bind ((reads_slots fits).last _)
  | setConfigEpoch epoch => exact reads_byte.bind ((reads_u64 fits).last _)
  | assignReplica node slots =>
    exact reads_byte.bind ((reads_string fits.1).bind ((reads_slots fits.2).last _))
  | promoteReplica slots newPrimary =>
    exact reads_byte.bind ((reads_slots fits.1).bind ((reads_string fits.2).last _))
  | setSlotMigrating slot dest =>
    exact reads_byte.bind ((reads_u16 fits.1).bind ((reads_string fits.2).last _))
  | setSlotImporting slot src dest =>
    exact reads_byte.bind ((reads_u16 fits.1).bind
      ((reads_string fits.2.1).bind ((reads_string fits.2.2).last _)))
  | setSlotStable slot => exact reads_byte.bind ((reads_u16 fits).last _)

private theorem reads_membership (change : MembershipChange) (fits : MembershipChange.Fits change) :
    Reads getMembership (putMembership change) change := by
  cases change with
  | addVoter node => exact reads_byte.bind ((reads_u64 fits).last _)
  | removeVoter node => exact reads_byte.bind ((reads_u64 fits).last _)
  | addLearner node => exact reads_byte.bind ((reads_u64 fits).last _)
  | promoteLearner node => exact reads_byte.bind ((reads_u64 fits).last _)
  | removeLearner node => exact reads_byte.bind ((reads_u64 fits).last _)

section

variable {membership : Reader MembershipChange} (members : ∀ change,
  MembershipChange.Fits change → Reads membership (putMembership change) change)
include members

theorem reads_payload (fits : EntryPayload.Fits payload) :
    Reads (payloadBy membership) (putPayload payload) payload := by
  cases payload with
  | noop => exact reads_byte.bind (.pure _)
  | bytes data => exact reads_byte.bind ((reads_blob fits).last _)
  | config command => exact reads_byte.bind ((reads_config fits).last _)
  | configChange change =>
    exact reads_byte.bind ((members change fits).last _)

theorem reads_entry (fits : LogEntry.Fits entry) :
    Reads (entryBy (payloadBy membership)) (putEntry entry) entry :=
  (reads_u64 fits.1).bind ((reads_u64 fits.2.1).bind ((reads_payload members fits.2.2).last _))

end

private theorem reads_record (fits : Record.Fits record) : Reads getRecord (encodeBody record) record := by
  cases record with
  | setTerm term => exact reads_byte.bind ((reads_u64 fits).last _)
  | setVote vote =>
    cases vote with
    | none =>
      have absent : Reads getVote [0] none := reads_byte.bind (.pure _)
      exact reads_byte.bind (absent.last _)
    | some candidate =>
      have present : Reads getVote (1 :: putU64 candidate) (some candidate) :=
        reads_byte.bind ((reads_u64 (fits candidate rfl)).last _)
      exact reads_byte.bind (present.last _)
  | appendEntry entry => exact reads_byte.bind ((reads_entry reads_membership fits).last _)
  | truncate index => exact reads_byte.bind ((reads_u64 fits).last _)

theorem decodeBody_encodeBody (fits : Record.Fits record) : decodeBody (encodeBody record) = some record :=
  readAll_of_reads (reads_record fits)

end IronCache.RaftNet
