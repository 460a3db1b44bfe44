import IronCache.Repl.Control
import IronCache.Repl.Converge
import IronCache.Repl.Spans

/-!
# Nodes that follow each other

Any number of nodes, each with a link to the node it follows: the handshake of `serve_replica_conn`
and what `attach_once` keeps to resume from. Anyone may dial anyone at any time.
-/

namespace IronCache.Repl

open Store
open Function

variable {E ν : Type}

/-- The replica's end of a link: in the handshake or the sync, or in the tail. -/
inductive Inlet (E : Type) where
  | receiving (receiver : Receiver E)
  | tailing (applied : ℕ)

/-- A link to the start of an owner that a token names. -/
structure Attach (E ν : Type) where
  owner : ν
  token : ℕ
  feed : Option Feed
  frames : List Frame
  inlet : Inlet E

structure Fleet (E ν : Type) where
  store : ν → ShardStore E
  ring : ν → ReplRing
  token : ν → ℕ
  /-- Whether the node was attached as a replica since its start. -/
  replicaPassive : ν → Bool
  resume : ν → ResumeState ℕ
  link : ν → Option (Attach E ν)
  /-- The token of the next start. -/
  minted : ℕ

structure FleetParams (E : Type) where
  freshShardStore : ShardStore E
  replid : ℕ → Bytes

inductive FleetEvent (E ν : Type) where
  | write (node : ν) (op : Op)
  /-- The process starts anew with what it loads, and purges its disk backlog. -/
  | restart (node : ν) (loaded : ShardStore E) (cap : ℕ) (backlogBytes : Option ℕ)
  | dial (replica owner : ν) (now : ℕ)
  | chunk (replica : ν) (max : ℕ)
  | finish (replica : ν)
  | drain (replica : ν) (send : StreamOp → Bool) (max : ℕ)
  | deliver (replica : ν) (now : ℕ)
  /-- The link is lost. -/
  | drop (replica : ν)
  /-- The control task finds that it is not to attach. -/
  | poll (replica : ν)

namespace Fleet

variable [EvictionPolicy E] [DecidableEq ν]

def flushed (ring : ReplRing) : ReplRing := if ring.disk.isSome then ring.flushSpill else ring

variable (fleet : Fleet E ν)

/-- The four conditions of the resume. -/
def canResume (owner : ν) (resume : ResumeState ℕ) : Bool :=
  let ring := flushed (fleet.ring owner)
  decide (resume.token = some (fleet.token owner)) && decide (0 < resume.offset) &&
    decide (resume.offset ≤ ring.head) && !ring.needsResync && ring.canServeFrom resume.offset

def setLink (replica : ν) (link : Option (Attach E ν)) : Fleet E ν :=
  { fleet with link := update fleet.link replica link }

/-- A store that was written to: its observer, if there is one, pushes to the ring. -/
def setStore (node : ν) (store : ShardStore E) : Fleet E ν :=
  { fleet with
    store := update fleet.store node store
    ring := update fleet.ring node
      ((fleet.ring node).pushAll ((heard store).drop (heard (fleet.store node)).length)) }

/-- The store of a replica, swapped in or kept, with both marks of a passive one. -/
def setPassive (replica : ν) (store : ShardStore E) : Fleet E ν :=
  { fleet with
    store := update fleet.store replica { store with passive := true }
    replicaPassive := update fleet.replicaPassive replica true }

/-- The handshake: the owner resumes the replica or begins a full sync. -/
def dial (params : FleetParams E) (fleet : Fleet E ν) (replica owner : ν) (now : ℕ) : Fleet E ν :=
  let resume := fleet.resume replica
  let ring := if resume.token = some (fleet.token owner) then flushed (fleet.ring owner)
    else fleet.ring owner
  let attach : Attach E ν :=
    if fleet.canResume owner resume then
      { owner
        token := fleet.token owner
        feed := some (.tailing resume.offset)
        frames := []
        inlet := .receiving .waiting }
    else
      { owner
        token := fleet.token owner
        feed := some (.syncing ring.head now .start)
        frames := [.fullSync (params.replid (fleet.token owner)) ring.head]
        inlet := .receiving .waiting }
  { fleet with ring := update fleet.ring owner ring }.setLink replica (some attach)

/-- One frame for the applier of the tail; a gap ends the link. -/
def tail (replica : ν) (attach : Attach E ν) (applied : ℕ) (frame : Frame) (now : ℕ) : Fleet E ν :=
  match (⟨fleet.store replica, applied⟩ : Replica E).apply frame now with
  | (.gap, _) =>
    { fleet.setLink replica none with
      resume := update fleet.resume replica ⟨applied, some attach.token⟩ }
  | (_, follower) =>
    (fleet.setStore replica follower.store).setLink replica
      (some { attach with inlet := .tailing follower.applied })

/-- The first frame tells a full sync from a resume. -/
def deliver (params : FleetParams E) (fleet : Fleet E ν) (replica : ν) (attach : Attach E ν)
    (frame : Frame) (now : ℕ) : Fleet E ν :=
  match attach.inlet, frame with
  | .tailing applied, frame => fleet.tail replica attach applied frame now
  | .receiving .waiting, .fullSync _ _ =>
    fleet.setLink replica (some { attach with inlet := .receiving (.loading params.freshShardStore) })
  | .receiving .waiting, frame =>
    (fleet.setPassive replica (fleet.store replica)).tail replica attach
      (fleet.resume replica).offset frame now
  | .receiving receiver, frame =>
    match receiver.receive params.freshShardStore frame now with
    | .tailing follower =>
      (fleet.setPassive replica follower.store).setLink replica
        (some { attach with inlet := .tailing follower.applied })
    | .detached => fleet.setLink replica none
    | next => fleet.setLink replica (some { attach with inlet := .receiving next })

/-- The end of the owner that serves a link, as long as the start lives that answered it. -/
def serving (replica : ν) : Option (Attach E ν) :=
  (fleet.link replica).filter fun attach => fleet.token attach.owner = attach.token

def step (params : FleetParams E) (fleet : Fleet E ν) : FleetEvent E ν → Fleet E ν
  | .write node op => fleet.setStore node (op.step (fleet.store node))
  | .restart node loaded cap backlogBytes =>
    { store := update fleet.store node { loaded with observed := some [], passive := false }
      ring := update fleet.ring node (.withDisk cap 0 (backlogBytes.map fun maxBytes => { maxBytes }))
      token := update fleet.token node fleet.minted
      replicaPassive := update fleet.replicaPassive node false
      resume := update fleet.resume node .fresh
      link := update fleet.link node none
      minted := fleet.minted + 1 }
  | .dial replica owner now =>
    match fleet.link replica with
    | some _ => fleet
    | none => fleet.dial params replica owner now
  | .chunk replica max =>
    match fleet.serving replica with
    | some attach =>
      match attach.feed with
      | some (.syncing cut now cursor) =>
        if cursor.isDone (fleet.store attach.owner).databases then fleet
        else
          let (entries, next) := (fleet.store attach.owner).snapshotChunk cursor max now
          fleet.setLink replica (some { attach with
            feed := some (.syncing cut now next)
            frames := attach.frames ++ syncFrames entries })
      | _ => fleet
    | none => fleet
  | .finish replica =>
    match fleet.serving replica with
    | some attach =>
      match attach.feed with
      | some (.syncing cut _ cursor) =>
        if cursor.isDone (fleet.store attach.owner).databases then
          fleet.setLink replica (some { attach with
            feed := some (.tailing cut)
            frames := attach.frames ++ [.syncEnd cut] })
        else fleet
      | _ => fleet
    | none => fleet
  | .drain replica send max =>
    match fleet.serving replica with
    | some attach =>
      match attach.feed with
      | some (.tailing cursor) =>
        let shipment := drainAndShip send (fleet.ring attach.owner) cursor max
        { fleet with ring := update fleet.ring attach.owner shipment.ring }.setLink
          replica (some { attach with
            feed := afterPass shipment
            frames := attach.frames ++ shipment.frames.map opToFrame })
      | _ => fleet
    | none => fleet
  | .deliver replica now =>
    match fleet.link replica with
    | some attach =>
      match attach.frames with
      | [] => fleet
      | frame :: frames => fleet.deliver params replica { attach with frames } frame now
    | none => fleet
  | .drop replica =>
    match fleet.link replica with
    | some attach =>
      { fleet.setLink replica none with
        resume := match attach.inlet with
          | .tailing applied =>
            update fleet.resume replica ⟨applied, some attach.token⟩
          | .receiving _ => fleet.resume }
    | none => fleet
  | .poll replica =>
    match fleet.link replica with
    | some _ => fleet
    | none => { fleet with resume := update fleet.resume replica .fresh }

end Fleet

end IronCache.Repl
