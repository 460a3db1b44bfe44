import IronCache.Lib.Guarded
import Mathlib.Order.MinMax

/-!
# The replication status of a node

The status cell of `ironcache-repl/src/lag.rs` and the in-sync signal that is read from it.
-/

namespace IronCache.Repl

inductive ReplRole where
  | master
  | replica
deriving DecidableEq

inductive LinkStatus where
  | up
  | down
deriving DecidableEq

structure ReplicaState where
  nodeId : ℕ
  acked : ℕ
deriving DecidableEq

/-- What a node reports of its replication. -/
structure ReplNodeStatus where
  role : ReplRole := .master
  nodeOffset : ℕ := 0
  replicas : List ReplicaState := []
  masterLink : LinkStatus := .down
  masterOffset : ℕ := 0
  masterEndpoint : Option (String × ℕ) := none
deriving DecidableEq

def lag (head acked : ℕ) : ℕ := head - acked

/-- A lag that is not known is never in sync. -/
def replicaIsInSync (link : LinkStatus) (lag : Option ℕ) (maxLag : ℕ) : Bool :=
  link = .up && lag.any (· ≤ maxLag)

namespace ReplNodeStatus

/-- A reported offset does not go back. -/
def storeMonotonic (cell value : ℕ) : ℕ := max cell value

def setMasterHead (head : ℕ) (status : ReplNodeStatus) : ReplNodeStatus :=
  { status with role := .master, nodeOffset := storeMonotonic status.nodeOffset head }

def setReplica (nodeId acked : ℕ) (status : ReplNodeStatus) : ReplNodeStatus :=
  { status with
    replicas :=
      if status.replicas.any (·.nodeId = nodeId) then
        status.replicas.map fun replica =>
          if replica.nodeId = nodeId then { replica with acked := max replica.acked acked }
          else replica
      else status.replicas ++ [⟨nodeId, acked⟩] }

def removeReplica (nodeId : ℕ) (status : ReplNodeStatus) : ReplNodeStatus :=
  { status with replicas := status.replicas.filter (·.nodeId ≠ nodeId) }

def setReplicaAttached (host : String) (port start : ℕ) (status : ReplNodeStatus) :
    ReplNodeStatus :=
  { status with
    role := .replica
    masterLink := .up
    nodeOffset := storeMonotonic status.nodeOffset start
    masterOffset := storeMonotonic status.masterOffset start
    masterEndpoint := some (host, port) }

def setReplicaApplied (applied : ℕ) (status : ReplNodeStatus) : ReplNodeStatus :=
  { status with nodeOffset := storeMonotonic status.nodeOffset applied }

def setObservedMasterHead (head : ℕ) (status : ReplNodeStatus) : ReplNodeStatus :=
  { status with masterOffset := storeMonotonic status.masterOffset head }

def setMasterLinkDown (status : ReplNodeStatus) : ReplNodeStatus :=
  { status with masterLink := .down }

/-- The signal that replica reads and promotions rest on. -/
def isInSync (status : ReplNodeStatus) (maxLag : ℕ) : Bool :=
  status.role = .replica && replicaIsInSync status.masterLink
      (if status.masterLink = .up then some (lag status.masterOffset status.nodeOffset) else none) maxLag

theorem isInSync_iff {status : ReplNodeStatus} {maxLag : ℕ} :
    status.isInSync maxLag = true ↔ status.role = .replica ∧ status.masterLink = .up ∧
      status.masterOffset ≤ status.nodeOffset + maxLag := by
  unfold isInSync replicaIsInSync lag
  simp only [Bool.and_eq_true, decide_eq_true_eq]
  constructor
  · rintro ⟨role, up, behind⟩
    rw [if_pos up] at behind
    exact ⟨role, up, Nat.sub_le_iff_le_add'.1 (of_decide_eq_true behind)⟩
  · rintro ⟨role, up, behind⟩
    rw [if_pos up]
    exact ⟨role, up, decide_eq_true (Nat.sub_le_iff_le_add'.2 behind)⟩

end ReplNodeStatus

inductive StatusEvent where
  | masterHead (head : ℕ)
  | replica (nodeId acked : ℕ)
  | replicaRemoved (nodeId : ℕ)
  | replicaAttached (host : String) (port start : ℕ)
  | observedMasterHead (head : ℕ)
  | replicaApplied (applied : ℕ)
  | masterLinkDown
deriving DecidableEq

def ReplNodeStatus.publish (status : ReplNodeStatus) : StatusEvent → ReplNodeStatus
  | .masterHead head => status.setMasterHead head
  | .replica nodeId acked => status.setReplica nodeId acked
  | .replicaRemoved nodeId => status.removeReplica nodeId
  | .replicaAttached host port start => status.setReplicaAttached host port start
  | .observedMasterHead head => status.setObservedMasterHead head
  | .replicaApplied applied => status.setReplicaApplied applied
  | .masterLinkDown => status.setMasterLinkDown

/-- What really happened on the link that is up: how far the replica has applied, from the start of
the attach on, and the highest offset that came over it. -/
structure Link where
  applied : ℕ
  observed : ℕ
deriving DecidableEq

def Link.follow (link : Option Link) : StatusEvent → Option Link
  | .replicaAttached _ _ start => some ⟨start, start⟩
  | .observedMasterHead head => link.map fun link => { link with observed := max link.observed head }
  | .replicaApplied applied => link.map fun link => { link with applied := max link.applied applied }
  | .masterLinkDown => none
  | _ => link

structure Reported where
  status : ReplNodeStatus := {}
  link : Option Link := none
deriving DecidableEq

def Reported.step (reported : Reported) (event : StatusEvent) : Reported where
  status := reported.status.publish event
  link := Link.follow reported.link event

/-- Whatever is called in sync is in sync on the link that is up. -/
def Reported.Truthful (reported : Reported) : Prop :=
  ∀ maxLag, reported.status.isInSync maxLag = true →
    ∃ link, reported.link = some link ∧ link.observed ≤ link.applied + maxLag

/-- The condition on an attach: it starts no lower than the offset the cell already shows. -/
def Reported.StartsAbove (reported : Reported) : StatusEvent → Prop
  | .replicaAttached _ _ start => reported.status.nodeOffset ≤ start
  | _ => True

/-- While the node is a replica with its link up, the cell claims no more than the link. -/
def Reported.Backed (reported : Reported) : Prop :=
  reported.status.role = .replica → reported.status.masterLink = .up →
    ∃ link, reported.link = some link ∧ reported.status.nodeOffset ≤ link.applied ∧
      link.observed ≤ reported.status.masterOffset

namespace Reported

theorem Backed.step {reported : Reported} (backed : reported.Backed) {event : StatusEvent}
    (above : reported.StartsAbove event) : (reported.step event).Backed := by
  intro role up
  cases event with
  | masterHead head => cases role
  | masterLinkDown => cases up
  | replica nodeId acked => exact backed role up
  | replicaRemoved nodeId => exact backed role up
  | replicaAttached host port start =>
    exact ⟨⟨start, start⟩, rfl, max_le above le_rfl, le_max_right _ _⟩
  | observedMasterHead head =>
    obtain ⟨link, tracked, applied, observed⟩ := backed role up
    refine ⟨{ link with observed := max link.observed head }, ?_, applied, ?_⟩
    · exact congrArg (Option.map _) tracked
    · exact max_le_max observed le_rfl
  | replicaApplied offset =>
    obtain ⟨link, tracked, applied, observed⟩ := backed role up
    refine ⟨{ link with applied := max link.applied offset }, ?_, ?_, observed⟩
    · exact congrArg (Option.map _) tracked
    · exact max_le_max applied le_rfl

theorem Backed.truthful {reported : Reported} (backed : reported.Backed) : reported.Truthful := by
  intro maxLag inSync
  obtain ⟨role, up, behind⟩ := ReplNodeStatus.isInSync_iff.1 inSync
  obtain ⟨link, tracked, applied, observed⟩ := backed role up
  refine ⟨link, tracked, ?_⟩
  calc link.observed ≤ reported.status.masterOffset := observed
    _ ≤ reported.status.nodeOffset + maxLag := behind
    _ ≤ link.applied + maxLag := Nat.add_le_add_right applied maxLag

/-- Whatever the tasks publish, in any order and for any owners: the in-sync signal is truthful, as
long as no attach starts below the offset that the cell shows. -/
theorem truthful_run {events : List StatusEvent} (meets : Guarded.Throughout step StartsAbove {} events) :
    (events.foldl step {}).Truthful := by
  refine Backed.truthful (meets.invariant (fun _ _ backed above => backed.step above) ?_)
  intro role
  cases role

/-- A replica that attaches, follows the tail and resumes where it was. -/
def steadyEvents : List StatusEvent :=
  [.replicaAttached "a" 7000 100, .observedMasterHead 101, .replicaApplied 101, .masterLinkDown,
    .replicaAttached "a" 7000 101, .observedMasterHead 102]

theorem truthful_run_steadyEvents : (steadyEvents.foldl step {}).Truthful :=
  truthful_run (by simp [Guarded.Throughout, steadyEvents, StartsAbove, step,
    ReplNodeStatus.publish, ReplNodeStatus.setReplicaAttached, ReplNodeStatus.setReplicaApplied,
    ReplNodeStatus.setObservedMasterHead, ReplNodeStatus.setMasterLinkDown, ReplNodeStatus.storeMonotonic])

/-- A replica loses its link at offset 100. Its owner restarts, so that its offsets begin anew, and
the full sync is cut at 5; the next write comes over the link and is not applied yet. -/
def restartedOwner : List StatusEvent :=
  [.replicaAttached "a" 7000 100, .masterLinkDown, .replicaAttached "a" 7000 5, .observedMasterHead 6]

theorem not_truthful_restartedOwner : ¬(restartedOwner.foldl step {}).Truthful := by
  intro truthful
  obtain ⟨link, tracked, behind⟩ := truthful 0 (by decide)
  cases tracked
  exact absurd behind (by decide)

end Reported

end IronCache.Repl
