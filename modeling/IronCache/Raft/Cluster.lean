import IronCache.Raft.Engine

/-!
# Runs of a cluster

A packet that was sent may be delivered at any time, and a node may crash between two storage writes
of one step, losing everything but its storage.
-/

namespace IronCache.Raft

open Function (update)

variable {machine : StateMachine}

inductive Input where
  | message (source : NodeId) (msg : RaftMsg)
  | timer (token : ℕ)
  | propose (payload : EntryPayload)

def RaftNode.step (node : RaftNode machine) (now : ℕ) (rng : RaftRng) : Input → Outcome machine
  | .message source msg => Ctx.onMessage { node, rng } now source msg
  | .timer token => .ok (Ctx.onTimer { node, rng } now token)
  | .propose payload => Prod.fst <$> Ctx.propose { node, rng } payload

/-- The context a step ends in, by a return or by a panic. -/
def Outcome.ctx : Outcome machine → Ctx machine
  | .ok done => done
  | .error stopped => stopped

structure Packet where
  source : NodeId
  dest : NodeId
  msg : RaftMsg
deriving DecidableEq

/-- The nodes and every packet ever sent. The other fields only record: what each node has
applied since it was last built, what it applied in each of its earlier lives, every storage
write it made and the storage of every snapshot chunk it sent. -/
structure Cluster (machine : StateMachine) where
  nodes : NodeId → RaftNode machine
  network : List Packet := []
  applied : NodeId → List LogEntry := fun _ => []
  retired : NodeId → List (List LogEntry) := fun _ => []
  writes : NodeId → List Write := fun _ => []
  shipped : NodeId → List MemStorage := fun _ => []

def Setup.boot (setup : Setup machine) : Cluster machine where
  nodes id := setup.build id {}

/-- Why a node takes a step: a packet of the network arrives, a timer fires or a client
proposes. -/
inductive Cause where
  | deliver (position : ℕ)
  | timer (node : NodeId) (token : ℕ)
  | propose (node : NodeId) (payload : EntryPayload)

/-- One thing that happens in a run. A `crash` hits the step at the given write count. -/
inductive Action where
  | step (cause : Cause) (now : ℕ) (rng : RaftRng)
  | crash (cause : Cause) (now : ℕ) (rng : RaftRng) (count : ℕ)
  | restart (node : NodeId)

def Action.cause? : Action → Option Cause
  | .step cause _ _ => some cause
  | .crash cause _ _ _ => some cause
  | .restart _ => none

/-- The cause proposes no membership change. -/
def Cause.Static : Cause → Prop
  | .propose _ payload => payload.change? = none
  | _ => True

instance : DecidablePred Cause.Static
  | .propose _ payload => inferInstanceAs (Decidable (payload.change? = none))
  | .deliver _ => .isTrue trivial
  | .timer _ _ => .isTrue trivial

def Action.Static (action : Action) : Prop := ∀ cause ∈ action.cause?, cause.Static

instance : DecidablePred Action.Static := fun action =>
  inferInstanceAs (Decidable (∀ cause ∈ action.cause?, cause.Static))

/-- The action lets steps finish: a crash falls between two steps. -/
def Action.Whole : Action → Prop
  | .crash _ _ _ _ => False
  | _ => True

instance : DecidablePred Action.Whole
  | .crash _ _ _ _ => .isFalse id
  | .step _ _ _ => .isTrue trivial
  | .restart _ => .isTrue trivial

namespace Cluster

def target (cluster : Cluster machine) : Cause → Option (NodeId × Input)
  | .deliver position =>
    cluster.network[position]?.map fun packet =>
      (packet.dest, .message packet.source packet.msg)
  | .timer node token => some (node, .timer token)
  | .propose node payload => some (node, .propose payload)

/-- The node that an action makes take a step, and the input it steps on. -/
def addressed (cluster : Cluster machine) (action : Action) : Option (NodeId × Input) :=
  action.cause?.bind cluster.target

/-- A finished step: the node's new state, and its messages on the network. -/
def release (cluster : Cluster machine) (id : NodeId) (done : Ctx machine) : Cluster machine where
  nodes := update cluster.nodes id done.node
  network := cluster.network ++ done.out.sends.map fun sent => ⟨id, sent.1, sent.2⟩
  applied := update cluster.applied id (cluster.applied id ++ done.applied)
  retired := cluster.retired
  writes := update cluster.writes id (cluster.writes id ++ done.writes)
  shipped := update cluster.shipped id (cluster.shipped id ++ done.shipped)

/-- Build a node again over its storage, after a step that applied and wrote this much. -/
def rebuild (setup : Setup machine) (cluster : Cluster machine) (id : NodeId)
    (storage : MemStorage) (applied : List LogEntry) (writes : List Write) : Cluster machine where
  nodes := update cluster.nodes id (setup.build id storage)
  network := cluster.network
  applied := update cluster.applied id []
  retired := update cluster.retired id ((cluster.applied id ++ applied) :: cluster.retired id)
  writes := update cluster.writes id (cluster.writes id ++ writes)
  shipped := cluster.shipped

/-- A crash after a number of a step's writes. The step's messages are lost with it; what it
had applied by its next write may have happened. -/
def crashAfter (setup : Setup machine) (cluster : Cluster machine) (id : NodeId)
    (stopped : Ctx machine) (count : ℕ) : Cluster machine :=
  cluster.rebuild setup id ((cluster.nodes id).storage.writeAll ((stopped.writes.take count).map (·.op)))
    (stopped.writes[count]?.elim stopped.applied (·.applied)) (stopped.writes.take count)

def act (setup : Setup machine) (cluster : Cluster machine) : Action → Cluster machine
  | .step cause now rng =>
    match cluster.target cause with
    | none => cluster
    | some (id, input) =>
      match (cluster.nodes id).step now rng input with
      | .ok done => cluster.release id done
      -- A panic aborts the process: a crash after the last write made.
      | .error stopped => cluster.crashAfter setup id stopped stopped.writes.length
  | .crash cause now rng count =>
    match cluster.target cause with
    | none => cluster
    | some (id, input) =>
      cluster.crashAfter setup id ((cluster.nodes id).step now rng input).ctx count
  | .restart id => cluster.rebuild setup id (cluster.nodes id).storage [] []

section Act

variable {setup : Setup machine} {cluster : Cluster machine}

theorem act_of_none (missing : cluster.target cause = none) (now : ℕ) (rng : RaftRng) (count : ℕ) :
    cluster.act setup (.step cause now rng) = cluster ∧
      cluster.act setup (.crash cause now rng count) = cluster := by
  simp only [act, missing, and_self]

theorem act_step_of_ok (found : cluster.target cause = some (owner, input))
    (result : (cluster.nodes owner).step now rng input = .ok done) :
    cluster.act setup (.step cause now rng) = cluster.release owner done := by
  simp only [act, found, result]

theorem act_step_of_error (found : cluster.target cause = some (owner, input))
    (result : (cluster.nodes owner).step now rng input = .error stopped) :
    cluster.act setup (.step cause now rng) =
      cluster.crashAfter setup owner stopped stopped.writes.length := by
  simp only [act, found, result]

theorem act_crash (found : cluster.target cause = some (owner, input)) (now : ℕ) (rng : RaftRng) (count : ℕ) :
    cluster.act setup (.crash cause now rng count) =
      cluster.crashAfter setup owner ((cluster.nodes owner).step now rng input).ctx count := by
  simp only [act, found]

end Act

end Cluster

/-- The clusters that runs from one cluster reach, when each action is allowed in the state it
happens in. -/
inductive Reaches (setup : Setup machine) (Allowed : Cluster machine → Action → Prop)
    (source : Cluster machine) : Cluster machine → Prop where
  | refl : Reaches setup Allowed source source
  | act (reached : Reaches setup Allowed source cluster) (allowed : Allowed cluster action) :
      Reaches setup Allowed source (cluster.act setup action)

/-- The clusters that runs from the start reach. -/
abbrev Reachable (setup : Setup machine) (Allowed : Cluster machine → Action → Prop) :
    Cluster machine → Prop :=
  Reaches setup Allowed setup.boot

theorem Reaches.weaken {Allowed Allowed' : Cluster machine → Action → Prop}
    (weaker : ∀ cluster action, Allowed cluster action → Allowed' cluster action)
    (reached : Reaches setup Allowed source target) : Reaches setup Allowed' source target := by
  induction reached with
  | refl => exact .refl
  | act _ allowed ih => exact .act ih (weaker _ _ allowed)

/-- Whether each of a list of actions is allowed in the state it happens in. -/
def Cluster.allows (setup : Setup machine) (Allowed : Cluster machine → Action → Prop)
    [∀ cluster action, Decidable (Allowed cluster action)] (cluster : Cluster machine) : List Action → Bool
  | [] => true
  | action :: rest =>
    decide (Allowed cluster action) && (cluster.act setup action).allows setup Allowed rest

theorem Reaches.of_allows {Allowed : Cluster machine → Action → Prop}
    [∀ cluster action, Decidable (Allowed cluster action)] (reached : Reaches setup Allowed source cluster)
    (allowed : cluster.allows setup Allowed actions = true) :
    Reaches setup Allowed source (actions.foldl (Cluster.act setup) cluster) := by
  induction actions generalizing cluster with
  | nil => exact reached
  | cons action rest ih =>
    obtain ⟨here, more⟩ := Bool.and_eq_true_iff.mp allowed
    exact ih (.act reached (of_decide_eq_true here)) more

/-- A state machine that counts the entries it has applied. -/
def counting : StateMachine where
  State := ℕ
  apply count _ := count + 1
  snapshot count := List.replicate count 0
  restore _ data := data.length

/-- Nodes built with the voters one up to a number, and the default configuration but for what
is given. -/
def electorate (size : ℕ) (config : RaftConfig) : Setup counting where
  voters := OrdSet.ofList (List.range' 1 size)
  config _ := config
  blank _ := (0 : ℕ)

end IronCache.Raft
