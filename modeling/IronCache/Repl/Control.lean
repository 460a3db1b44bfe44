import IronCache.Cluster.SlotMap
import IronCache.Repl.Lag
import IronCache.Repl.Source

/-!
# A node of a replicated cluster

A node in raft mode with one shard, and the control task that attaches it as a replica
(`replica_attach.rs`, `serve_cluster_cmd.rs`), cut at its awaits.
-/

namespace IronCache.Repl

open Store Cluster

/-- The highest offset applied and the history token of the last full sync. -/
structure ResumeState (τ : Type) where
  offset : ℕ
  token : Option τ

def ResumeState.fresh {τ : Type} : ResumeState τ := ⟨0, none⟩

/-- Where the control task is: between two attempts, in an attempt, in the tail of an owner, or back
from it because of a gap. -/
inductive Phase (ν τ : Type) where
  | idle
  | dialing (owner : ν)
  | tailing (owner : ν) (token : Option τ) (applied : ℕ)
  | returned (owner : ν) (resume : ResumeState τ)

/-- The owner of the link that is up. -/
def Phase.owner? {ν τ : Type} : Phase ν τ → Option ν
  | .tailing owner _ _ | .returned owner _ => some owner
  | _ => none

structure Node (E ν τ : Type) where
  map : SlotMap ν
  store : ShardStore E
  ring : ReplRing
  replicaPassive : Bool
  status : ReplNodeStatus
  phase : Phase ν τ
  resume : ResumeState τ
  downSince : Option ℕ
  lastContactInSync : Bool

/-- What is fixed for the life of a node. A token names one start of one node, its issuer, and an
owner answers a dial with a token of its own. -/
structure NodeParams (E ν τ : Type) where
  self : ν
  endpoint : ν → String × ℕ
  issuer : τ → ν
  freshShardStore : ShardStore E
  failoverTimeout : ℕ
  replicaMaxLag : ℕ

inductive NodeEvent (ν τ : Type) where
  /-- A committed entry of the log is applied. -/
  | commit (cmd : ConfigCmd ν)
  /-- A command calls the store. -/
  | write (op : Op)
  /-- The reaper looks at a key. -/
  | reap (db : ℕ) (key : Bytes) (now : ℕ)
  /-- The listener publishes what it serves. -/
  | publishHead
  | publishReplica (nodeId acked : ℕ)
  | publishGone (nodeId : ℕ)
  /-- The control task finds that it is not to attach. -/
  | poll
  | unresolved (now : ℕ)
  | dial
  /-- The full sync is complete and its store is swapped in. -/
  | synced (token : τ) (entries : List SnapshotEntry) (endOffset : ℕ)
  | resumed
  | frame (frame : Frame) (now : ℕ)
  /-- The attempt or the link is over. -/
  | ended (now : ℕ)
  | failover
  /-- A cutover that quiesced the shard and was aborted. -/
  | abortedCutover

namespace Node

variable {E ν τ : Type} [EvictionPolicy E] [DecidableEq ν]

/-- The observer of the store, if there is one, pushes what it is told to the ring. -/
def withStore (store : ShardStore E) (node : Node E ν τ) : Node E ν τ :=
  { node with
    store := store
    ring := node.ring.pushAll ((heard store).drop (heard node.store).length) }

def streamFrameOffset : Frame → Option ℕ
  | .streamPut offset _ _ _ | .streamDel offset _ _ => some offset
  | _ => none

/-- The store becomes that of a passive replica of an owner. -/
def attached (params : NodeParams E ν τ) (owner : ν) (token : Option τ) (start : ℕ)
    (store : ShardStore E) (node : Node E ν τ) : Node E ν τ :=
  let (host, port) := params.endpoint owner
  { node with
    store := { store with passive := true }
    replicaPassive := true
    status := node.status.setReplicaAttached host port start
    phase := .tailing owner token start }

def latchInSync (wasAttached observed prev : Bool) : Bool := if wasAttached then observed else prev

/-- The verdict after an attempt, and since when the link is down. -/
def verdict (params : NodeParams E ν τ) (node : Node E ν τ) : Bool :=
  latchInSync (node.status.masterLink = .up) (node.status.isInSync params.replicaMaxLag)
    node.lastContactInSync

def outageStart (now : ℕ) (node : Node E ν τ) : ℕ :=
  if node.status.masterLink = .up then now else node.downSince.getD now

/-- What an attempt leaves to resume from. -/
def resumeAfter (node : Node E ν τ) : ResumeState τ :=
  match node.phase with
  | .tailing _ token applied => ⟨applied, token⟩
  | .returned _ resume => resume
  | _ => node.resume

def isIdle (node : Node E ν τ) : Bool :=
  match node.phase with
  | .idle => true
  | _ => false

/-- The head of the master as a frame shows it. -/
def observeFrame (frame : Frame) (status : ReplNodeStatus) : ReplNodeStatus :=
  match streamFrameOffset frame with
  | some offset => status.setObservedMasterHead offset
  | none => status

/-- One frame of the tail. A gap sends the task back. -/
def tailFrame (owner : ν) (token : Option τ) (applied : ℕ) (frame : Frame) (now : ℕ)
    (node : Node E ν τ) : Node E ν τ :=
  let status := observeFrame frame node.status
  match (⟨node.store, applied⟩ : Replica E).apply frame now with
  | (.gap, _) => { node with status := status, phase := .returned owner ⟨applied, token⟩ }
  | (_, replica) =>
    { node.withStore replica.store with
      status := status.setReplicaApplied replica.applied
      phase := .tailing owner token replica.applied }

/-- An event that cannot happen where the control task is leaves the node as it is. -/
def step (params : NodeParams E ν τ) (node : Node E ν τ) : NodeEvent ν τ → Node E ν τ
  | .commit cmd => { node with map := node.map.apply params.self cmd }
  | .write op => node.withStore (op.step node.store)
  | .reap db key now =>
    if node.replicaPassive then node
    else node.withStore (Op.step node.store (.reapIfExpired db key now))
  | .publishHead => { node with status := node.status.setMasterHead node.ring.head }
  | .publishReplica nodeId acked => { node with status := node.status.setReplica nodeId acked }
  | .publishGone nodeId => { node with status := node.status.removeReplica nodeId }
  | .poll =>
    if node.isIdle ∧ (node.map.anyImportingSlot.isSome ∨ (node.map.anyReplicaOfSelf params.self).isNone) then
      { node with downSince := none, lastContactInSync := false, resume := .fresh }
    else node
  | .unresolved now =>
    if node.isIdle then { node with downSince := some (node.downSince.getD now) } else node
  | .dial =>
    if node.isIdle ∧ node.map.anyImportingSlot.isNone then
      match (node.map.anyReplicaOfSelf params.self).bind node.map.movedTarget with
      | some owner => { node with phase := .dialing owner }
      | none => node
    else node
  | .synced token entries endOffset =>
    match node.phase, loadAll entries params.freshShardStore with
    | .dialing owner, some store =>
      if params.issuer token = owner then node.attached params owner (some token) endOffset store
      else node
    | _, _ => node
  | .resumed =>
    match node.phase, node.resume.token with
    | .dialing owner, some token =>
      if params.issuer token = owner then
        node.attached params owner (some token) node.resume.offset node.store
      else node
    | _, _ => node
  | .frame frame now =>
    match node.phase with
    | .tailing owner token applied => node.tailFrame owner token applied frame now
    | _ => node
  | .ended now =>
    if node.isIdle then node
    else
      { node with
        resume := node.resumeAfter
        status := node.status.setMasterLinkDown
        downSince := some (node.outageStart now)
        lastContactInSync := node.verdict params
        phase := .idle }
  | .failover => node
  | .abortedCutover => { node with store := { node.store with passive := false } }

variable {node : Node E ν τ}

omit [EvictionPolicy E] [DecidableEq ν] in
theorem phase_of_isIdle (idle : node.isIdle = true) : node.phase = .idle := by
  unfold isIdle at idle
  split at idle
  · assumption
  · cases idle

omit [EvictionPolicy E] [DecidableEq ν] in
theorem owner?_of_isIdle (idle : node.isIdle = true) : node.phase.owner? = none := by
  rw [phase_of_isIdle idle]
  rfl

omit [EvictionPolicy E] [DecidableEq ν] in
theorem resumeAfter_of_owner?_eq_none (down : node.phase.owner? = none) : node.resumeAfter = node.resume := by
  unfold resumeAfter
  cases phase : node.phase with
  | idle => rfl
  | dialing owner => rfl
  | tailing owner token applied =>
    rw [phase] at down
    cases down
  | returned owner resume =>
    rw [phase] at down
    cases down

theorem synced_cases (params : NodeParams E ν τ) : node.step params (.synced token entries endOffset) = node ∨
      ∃ owner store, node.phase = .dialing owner ∧ params.issuer token = owner ∧
        node.step params (.synced token entries endOffset) =
          node.attached params owner (some token) endOffset store := by
  simp only [step]
  split
  · next owner store dialing loaded =>
      split_ifs with issued
      · exact .inr ⟨owner, store, dialing, issued, rfl⟩
      · exact .inl rfl
  · exact .inl rfl

theorem resumed_cases (params : NodeParams E ν τ) : node.step params .resumed = node ∨
      ∃ owner token, node.phase = .dialing owner ∧ node.resume.token = some token ∧
        params.issuer token = owner ∧ node.step params .resumed =
          node.attached params owner (some token) node.resume.offset node.store := by
  simp only [step]
  split
  · next owner token dialing found =>
      split_ifs with issued
      · exact .inr ⟨owner, token, dialing, found, issued, rfl⟩
      · exact .inl rfl
  · exact .inl rfl

def promotionProposal (params : NodeParams E ν τ) (node : Node E ν τ) (inSyncAtLastContact : Bool) :
    Option (List ℕ) :=
  let slots := node.map.slotsReplicatedBySelf params.self
  if !inSyncAtLastContact ∨ slots.isEmpty then none else some slots

/-- The slots for which the node proposes its promotion, if it does: after an attempt when the
outage has lasted, or at once for a `CLUSTER FAILOVER`. -/
def proposes (params : NodeParams E ν τ) (node : Node E ν τ) : NodeEvent ν τ → Option (List ℕ)
  | .ended now =>
    if node.isIdle = false ∧ params.failoverTimeout ≤ now - node.outageStart now then
      node.promotionProposal params (node.verdict params)
    else none
  | .failover => node.promotionProposal params (node.status.isInSync params.replicaMaxLag)
  | _ => none

/-- A node as it is started: its observer is installed on the store it booted with. -/
structure Booted (node : Node E ν τ) : Prop where
  present : 0 < node.store.databases
  active : node.store.passive = false
  observing : node.store.observed = some []
  ring : node.ring.Carries 0 []
  serving : node.replicaPassive = false
  status : node.status = {}
  idle : node.phase = .idle
  resume : node.resume = .fresh
  down : node.downSince = none
  verdict : node.lastContactInSync = false

end Node

end IronCache.Repl
