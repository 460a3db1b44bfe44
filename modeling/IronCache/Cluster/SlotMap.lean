import IronCache.Protocol.Slot

/-!
# The slot map

The slot map of every node (`ironcache-cluster/src/lib.rs`) and the commands of the log that change
it (`config_sm.rs`).

A node is its advertised endpoint, by which the map recognises the node that keeps it (`is_self`,
`is_replica_of_self`, `set_slot_node`): the ids that one endpoint may go by are one node here, and a
table lists it once. `self` keeps the map.
-/

namespace IronCache.Cluster

open Protocol
open Function

/-- The phase of a slot's migration, with the other end. -/
inductive Migration (ν : Type) where
  | none
  | migrating (dest : ν)
  | importing (src : ν)
deriving DecidableEq

/-- The nodes, by their endpoints, and what every slot is assigned to. -/
structure SlotMap (ν : Type) where
  nodes : List ν
  owner : ℕ → Option ν := fun _ => none
  replica : ℕ → Option ν := fun _ => none
  migration : ℕ → Migration ν := fun _ => .none

/-- A command of the log. -/
inductive ConfigCmd (ν : Type) where
  | addNode (node : ν)
  | removeNode (node : ν)
  | setSlotOwner (slot : ℕ) (node : ν)
  | assignSlots (node : ν) (slots : List ℕ)
  | unassignSlots (slots : List ℕ)
  | assignReplica (node : ν) (slots : List ℕ)
  | promoteReplica (slots : List ℕ) (newPrimary : ν)
  | setSlotMigrating (slot : ℕ) (dest : ν)
  | setSlotImporting (slot : ℕ) (src dest : ν)
  | setSlotStable (slot : ℕ)

namespace SlotMap

variable {ν : Type} [DecidableEq ν]

def owns (self : ν) (map : SlotMap ν) (slot : ℕ) : Bool := map.owner slot = some self

def isReplicaOfSelf (self : ν) (map : SlotMap ν) (slot : ℕ) : Bool := map.replica slot = some self

/-- Where a client is sent for the slot. -/
def movedTarget (map : SlotMap ν) (slot : ℕ) : Option ν := map.owner slot

def isImporting (map : SlotMap ν) (slot : ℕ) : Bool :=
  match map.migration slot with
  | .importing _ => true
  | _ => false

def anyReplicaOfSelf (self : ν) (map : SlotMap ν) : Option ℕ :=
  (List.range clusterSlots).find? (map.isReplicaOfSelf self)

def anyImportingSlot (map : SlotMap ν) : Option ℕ := (List.range clusterSlots).find? map.isImporting

def slotsReplicatedBySelf (self : ν) (map : SlotMap ν) : List ℕ :=
  (List.range clusterSlots).filter (map.isReplicaOfSelf self)

/-- A new owner ends any migration of the slot. A node that is not known is refused. -/
def setSlotNode (slot : ℕ) (node : ν) (map : SlotMap ν) : SlotMap ν :=
  if node ∈ map.nodes then
    { map with
      owner := update map.owner slot (some node)
      migration := update map.migration slot .none }
  else map

def clearSlotOwner (slot : ℕ) (map : SlotMap ν) : SlotMap ν :=
  { map with owner := update map.owner slot none }

def setSlotReplica (slot : ℕ) (node : ν) (map : SlotMap ν) : SlotMap ν :=
  if node ∈ map.nodes then { map with replica := update map.replica slot (some node) }
  else map

def clearSlotReplica (slot : ℕ) (node : ν) (map : SlotMap ν) : SlotMap ν :=
  if map.replica slot = some node then { map with replica := update map.replica slot none }
  else map

def setMigration (slot : ℕ) (peer : ν) (migration : Migration ν) (map : SlotMap ν) : SlotMap ν :=
  if peer ∈ map.nodes then { map with migration := update map.migration slot migration }
  else map

/-- A node that owns slots stays, and so does the node itself. What it replicated is left without a
replica, and what it migrated is stable again. -/
def forget (self node : ν) (map : SlotMap ν) : SlotMap ν :=
  if node = self ∨ (List.range clusterSlots).any (map.owner · = some node) then map
  else
    { map with
      nodes := map.nodes.filter (· ≠ node)
      replica := fun slot => (map.replica slot).filter (· ≠ node)
      migration := fun slot =>
        match map.migration slot with
        | .migrating dest => if dest = node then .none else .migrating dest
        | .importing src => if src = node then .none else .importing src
        | .none => .none }

/-- The old owner becomes the replica of the new one. -/
def promote (newPrimary : ν) (map : SlotMap ν) (slot : ℕ) : SlotMap ν :=
  let promoted := (map.setSlotNode slot newPrimary).clearSlotReplica slot newPrimary
  match map.owner slot with
  | some old => if old = newPrimary then promoted else promoted.setSlotReplica slot old
  | none => promoted

/-- A committed command, applied on the node itself: a migration is tagged on its two ends only. -/
def apply (self : ν) (map : SlotMap ν) : ConfigCmd ν → SlotMap ν
  | .addNode node => if node ∈ map.nodes then map else { map with nodes := map.nodes ++ [node] }
  | .removeNode node => map.forget self node
  | .setSlotOwner slot node => map.setSlotNode slot node
  | .assignSlots node slots => slots.foldl (fun map slot => map.setSlotNode slot node) map
  | .unassignSlots slots => slots.foldl (fun map slot => map.clearSlotOwner slot) map
  | .assignReplica node slots => slots.foldl (fun map slot => map.setSlotReplica slot node) map
  | .promoteReplica slots newPrimary => slots.foldl (promote newPrimary) map
  | .setSlotMigrating slot dest =>
    if map.owns self slot then map.setMigration slot dest (.migrating dest) else map
  | .setSlotImporting slot src dest =>
    if dest = self then map.setMigration slot src (.importing src) else map
  | .setSlotStable slot => { map with migration := update map.migration slot .none }

/-- The node owns slots and replicates none. -/
def OwnerOnly (self : ν) (map : SlotMap ν) : Prop :=
  (∃ slot < clusterSlots, map.owns self slot = true) ∧ map.anyReplicaOfSelf self = none

theorem mem_slotsReplicatedBySelf {self : ν} {map : SlotMap ν} {slot : ℕ} :
    slot ∈ map.slotsReplicatedBySelf self ↔
      slot < clusterSlots ∧ map.isReplicaOfSelf self slot = true := by
  simp [slotsReplicatedBySelf]

end SlotMap

end IronCache.Cluster
