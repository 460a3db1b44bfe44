import IronCache.Serve.Confined
import IronCache.Lib.Guarded

/-!
# Writes and owners

A write meets a map in which its node serves the slot as long as no change of the map overtakes a
command that waits.
-/

namespace IronCache.Serve

open Protocol (Request ErrorReply utf8 keySlot)
open Cluster Coord Store ShardStore
open List

section Lawful

variable {E κ ν : Type} [DecidableEq ν]

/-- Every key of a write is in a slot that the node serves. -/
def Cleared (server : Server E κ ν) (map : SlotMap ν) (asking : Bool) (request : Request) : Prop :=
  isWrite (asciiUpper (command request)) = true →
    ∀ key ∈ workKeys server.timeouts request, Serves server.self map asking (keySlot key)

/-- A keyed write changes no key of a slot that the node does not serve under the map of that
moment. -/
def Run.Lawful (server : Server E κ ν) (map : SlotMap ν) (run : Run E) : Prop :=
  isKeyedWrite run.request = true →
    ∀ key, run.Changes key → Serves server.self map run.asking (keySlot key)

variable {server : Server E κ ν} {map : SlotMap ν} {node : Node E κ ν}

theorem Cleared.lawful {run : Run E} (cleared : Cleared server map run.asking run.request)
    (confined : run.Confined server.timeouts) : run.Lawful server map :=
  fun keyed key changes =>
    cleared (Bool.and_eq_true_iff.mp keyed).1 key (confined.mem keyed changes)

/-- The flag that counts for the next command of a connection. -/
def Conn.askingNow (conn : Conn κ) : Bool := if conn.inMulti then conn.txnAsking else conn.asking

/-- A command that was let through and has not run yet, with the flag it came under. -/
inductive Node.Waiting (node : Node E κ ν) : Bool → Request → Prop
  | queued (c : ℕ) {request : Request} (member : request ∈ (node.conns c).queued) :
      Waiting node (node.conns c).txnAsking request
  | pending {hop : Hop} (member : hop ∈ node.pending) : Waiting node hop.asking hop.request
  | parked (c : ℕ) {park : BlockPark} (parked : node.parked c = some park) :
      Waiting node park.asking park.request

/-- A write that comes writes keys that it is routed by, of slots that have an owner, or, where it
blocks, keys of slots the node serves; and no change of the map takes a slot from a command that
waits. -/
def Node.Steady (server : Server E κ ν) (node : Node E κ ν) : Event ν → Prop
  | .command c _ request =>
    let cmdUpper := asciiUpper (command request)
    isWrite cmdUpper = true → ∀ key ∈ workKeys server.timeouts request, if isBlockingCommand cmdUpper then
        Serves server.self node.map (node.conns c).askingNow (keySlot key)
      else key ∈ routedKeys cmdUpper request ∧ (node.map.owner (keySlot key)).isSome
  | .remapped map => ∀ asking request, node.Waiting asking request →
      Cleared server node.map asking request → Cleared server map asking request
  | _ => True

/-- A connection outside a transaction has an empty queue, and what it queued is cleared. -/
structure Conn.Checked (server : Server E κ ν) (map : SlotMap ν) (conn : Conn κ) : Prop where
  idle : conn.inMulti = false → conn.queued = []
  cleared : ∀ request ∈ conn.queued, Cleared server map conn.txnAsking request

variable {conn next : Conn κ} {request : Request}

theorem Conn.Checked.keepsQueue (checked : conn.Checked server map) (keeps : conn.KeepsQueue next) :
    next.Checked server map := by
  rcases keeps with gone | ⟨queued, inMulti, asking⟩
  · exact ⟨fun _ => gone, by rw [gone]; exact fun _ member => nomatch member⟩
  · exact ⟨by rw [queued, inMulti]; exact checked.idle,
      by rw [queued, asking]; exact checked.cleared⟩

theorem Conn.Checked.prepared (checked : conn.Checked server map) (prepared : conn.Prepared next) :
    next.Checked server map := by
  refine ⟨by rw [prepared.queued, prepared.inMulti]; exact checked.idle, fun request member => ?_⟩
  rw [prepared.queued] at member
  cases inMulti : conn.inMulti with
  | false =>
    rw [checked.idle inMulti] at member
    cases member
  | true =>
    rw [prepared.txnAsking inMulti]
    exact checked.cleared request member

/-- A write that does not block is cleared by the redirect, if its slots have owners. -/
private theorem cleared_of_passed (passed : Passed server map asking request)
    (owned : isWrite (called request) = true → ∀ key ∈ workKeys server.timeouts request,
      key ∈ routedKeys (called request) request ∧ (map.owner (keySlot key)).isSome) :
    Cleared server map asking request := by
  intro write key member
  obtain ⟨routed, assigned⟩ := owned write key member
  obtain ⟨present, passed⟩ := passed write
  exact serves_of_redirectForKeys passed routed assigned

private theorem cleared_of_control (map : SlotMap ν) (control : named controlNames (called request) = true) :
    Cleared server map asking request := by
  intro _ key member
  have waits : isBlockingCommand (called request) = false :=
    named_eq_false control (by decide)
  have unsorted : named ["SORT"] (called request) = false := named_eq_false control (by decide)
  simp only [workKeys, waits, unsorted, Bool.false_eq_true, if_false, routedKeys_of_control control] at member
  cases member

/-- A parked command is cleared, and waits with the keys it names. -/
structure BlockPark.Checked (server : Server E κ ν) (map : SlotMap ν) (park : BlockPark) : Prop where
  blocks : isBlockingCommand (called park.request) = true
  parsed : parseBlock server.timeouts (called park.request) park.request = .ok park.spec
  cleared : Cleared server map park.asking park.request

/-- What waits in a node is cleared under its map. -/
structure Node.Checked (server : Server E κ ν) (node : Node E κ ν) : Prop where
  conns : ∀ c, (node.conns c).Checked server node.map
  pending : ∀ hop ∈ node.pending, isBlockingCommand (called hop.request) = false ∧
    Cleared server node.map hop.asking hop.request
  parked : ∀ c park, node.parked c = some park → park.Checked server node.map

theorem Node.Checked.remapped (checked : node.Checked server) (steady : node.Steady server (.remapped map)) :
    ({ node with map := map } : Node E κ ν).Checked server where
  conns c := ⟨(checked.conns c).idle, fun request member =>
    steady _ _ (.queued c member) ((checked.conns c).cleared request member)⟩
  pending hop member := (checked.pending hop member).imp_right (steady _ _ (.pending member))
  parked c park holds :=
    { checked.parked c park holds with
      cleared := steady _ _ (.parked c holds) (checked.parked c park holds).cleared }

theorem Node.Checked.setConn (checked : node.Checked server) (next : conn.Checked server node.map)
    (stores : ℕ → ShardStore E) :
    ({ node with conns := Function.update node.conns c conn, stores := stores } :
      Node E κ ν).Checked server where
  conns := (Function.forall_update_iff node.conns fun _ conn => conn.Checked server node.map).mpr
    ⟨next, fun other _ => checked.conns other⟩
  pending := checked.pending
  parked := checked.parked

theorem Node.Checked.setParked (checked : node.Checked server)
    (held : ∀ park, parks = some park → park.Checked server node.map) :
    ({ node with parked := Function.update node.parked c parks } : Node E κ ν).Checked server where
  conns := checked.conns
  pending := checked.pending
  parked := (Function.forall_update_iff node.parked fun _ parks => ∀ park, parks = some park →
      park.Checked server node.map).mpr
    ⟨held, fun other _ => checked.parked other⟩

theorem Node.Checked.unpark (c : ℕ) (checked : node.Checked server) :
    ({ node with parked := Function.update node.parked c none } : Node E κ ν).Checked server := by
  refine checked.setParked fun held gone => ?_
  cases gone

end Lawful

section Steps

variable {E κ ν : Type} [EvictionHook E] [DecidableEq ν]

variable {server : Server E κ ν}

variable {conn : Conn κ} {request : Request} {asking : Bool} {node : Node E κ ν}
  (confined : server.Confined)

section

include confined

/-- The home dispatch keeps a connection checked and runs what is cleared. -/
theorem Conn.Checked.handleRequest {map : SlotMap ν} (now c inSync : ℕ) (store : ShardStore E)
    (checked : conn.Checked server map)
    (inside : conn.inMulti = true → Cleared server map conn.txnAsking request)
    (outside : conn.inMulti = false → Cleared server map asking request) :
    (handleRequest server now c inSync asking request conn store).conn.Checked server map ∧
      ∀ run ∈ (handleRequest server now c inSync asking request conn store).runs,
        run.Lawful server map := by
  rcases handleRequest_runs server now c inSync asking request conn store with
    ⟨inMulti, still, flag, queue, none⟩ | ⟨keeps, runs⟩
  · refine ⟨⟨fun idle => ?_, ?_⟩, ?_⟩
    · rw [still] at idle
      cases idle
    · rw [flag]
      rcases queue with same | longer
      · rw [same]
        exact checked.cleared
      rw [longer]
      exact forall_mem_append.mpr ⟨checked.cleared, forall_mem_singleton.mpr (inside inMulti)⟩
    · rw [none]
      exact fun run member => nomatch member
  · refine ⟨checked.keepsQueue keeps, fun run member => Cleared.lawful ?_
      (confined_handleRequest confined now c inSync asking request conn store run member)⟩
    rcases runs run member with ⟨-, asked, queued⟩ | ⟨-, asked, -, same, control⟩
    · rw [asked]
      exact checked.cleared _ queued
    rw [asked, same]
    cases inMulti : conn.inMulti with
    | false => exact outside inMulti
    | true => exact cleared_of_control map (control inMulti)

omit confined in
theorem Node.Checked.handleBlockingLive (c now : ℕ) (checked : node.Checked server)
    (next : conn.Checked server node.map) (blocks : isBlockingCommand (called request) = true)
    (cleared : Cleared server node.map asking request) :
    (handleBlockingLive server node c now request conn asking).1.Checked server ∧
      ∀ run ∈ (handleBlockingLive server node c now request conn asking).2, run.Lawful server node.map := by
  unfold Serve.handleBlockingLive
  dsimp only
  split
  · exact ⟨checked.setConn next node.stores, fun run member => nomatch member⟩
  split
  · exact ⟨checked.setConn next node.stores, fun run member => nomatch member⟩
  next spec parsed =>
    have within := within_tryBlockOp blocks parsed server.human conn.db now (node.stores conn.home)
    split
    · exact ⟨checked.setConn next _, forall_mem_singleton.mpr (cleared.lawful fun _ => within)⟩
    refine ⟨(checked.setConn next _).setParked fun park same => ?_,
      forall_mem_singleton.mpr (cleared.lawful fun _ => within)⟩
    cases same
    exact ⟨blocks, parsed, cleared⟩

theorem Node.Checked.commandComes (checked : node.Checked server)
    (steady : node.Steady server (.command c now request)) :
    (node.step server (.command c now request)).1.Checked server ∧
      ∀ run ∈ (node.step server (.command c now request)).2, run.Lawful server node.map := by
  have still : ∀ run ∈ ([] : List (Run E)), run.Lawful server node.map :=
    fun run member => nomatch member
  simp only [Node.step]
  split
  · exact ⟨checked, still⟩
  have routes := routes_route server node now request (node.conns c)
  generalize route server node now request (node.conns c) = routed at routes ⊢
  -- the redirect, or for a blocking command the condition, clears what comes
  have cleared : ∀ asking, isBlockingCommand (called request) = false →
      Passed server node.map asking request → Cleared server node.map asking request := by
    intro asking waits passed
    refine cleared_of_passed passed fun write key member => ?_
    simpa only [waits, Bool.false_eq_true, if_false] using steady write key member
  have asked : isBlockingCommand (called request) = true →
      Cleared server node.map (node.conns c).askingNow request := by
    intro blocks write key member
    simpa only [blocks, if_true] using steady write key member
  cases routes with
  | answered prepared =>
    exact ⟨checked.setConn ((checked.conns c).prepared prepared) node.stores, still⟩
  | blocking prepared alone blocks =>
    have flag : (node.conns c).askingNow = (node.conns c).asking := by
      simp [Conn.askingNow, alone]
    exact checked.handleBlockingLive c now ((checked.conns c).prepared prepared) blocks
      (flag ▸ asked blocks)
  | inside prepared inMulti passed =>
    have flag : (node.conns c).askingNow = (node.conns c).txnAsking := by
      simp [Conn.askingNow, inMulti]
    have request_cleared : Cleared server node.map (node.conns c).txnAsking request := by
      cases blocks : isBlockingCommand (called request) with
      | false => exact cleared _ blocks passed
      | true => exact flag ▸ asked blocks
    obtain ⟨kept, lawful⟩ := ((checked.conns c).prepared prepared).handleRequest confined now c
      node.replicas.count (node.stores _) (fun _ => prepared.txnAsking inMulti ▸ request_cleared)
      (fun alone => by rw [prepared.inMulti, inMulti] at alone; cases alone)
    exact ⟨checked.setConn kept _, lawful⟩
  | home prepared alone waits passed guarded =>
    obtain ⟨kept, lawful⟩ := ((checked.conns c).prepared prepared).handleRequest confined now c
      node.replicas.count (node.stores _)
      (fun inMulti => by rw [prepared.inMulti, alone] at inMulti; cases inMulti)
      (fun _ => cleared _ waits passed)
    exact ⟨checked.setConn kept _, lawful⟩
  | spread prepared waits passed guarded =>
    refine ⟨⟨(checked.setConn ((checked.conns c).prepared prepared) node.stores).conns, ?_,
      checked.parked⟩, still⟩
    refine forall_mem_append.mpr ⟨checked.pending, fun hop member => ?_⟩
    obtain ⟨shard, -, rfl⟩ := mem_map.mp member
    exact ⟨waits, cleared _ waits passed⟩

theorem Node.Checked.step {event : Event ν} (checked : node.Checked server)
    (steady : node.Steady server event) : (node.step server event).1.Checked server ∧
      ∀ run ∈ (node.step server event).2, run.Lawful server node.map := by
  have still : ∀ run ∈ ([] : List (Run E)), run.Lawful server node.map :=
    fun run member => nomatch member
  cases event with
  | command c now request => exact checked.commandComes confined steady
  | serve shard now =>
    simp only [Node.step, serveHop]
    split
    · exact ⟨checked, still⟩
    next hop found =>
      obtain ⟨waits, cleared⟩ := checked.pending hop (mem_of_find?_eq_some found)
      refine ⟨⟨checked.conns, fun hop member => ?_, checked.parked⟩, forall_mem_singleton.mpr ?_⟩
      · exact checked.pending hop (mem_of_mem_eraseP member)
      refine cleared.lawful fun keyed => confined hop.db now hop.request _ ?_ waits
      simpa [isKeyedWrite, waits] using (Bool.and_eq_true_iff.mp keyed).2
  | attempt c now =>
    simp only [Node.step, attempt]
    split
    · exact ⟨checked, still⟩
    next park parked =>
      obtain ⟨blocks, parsed, cleared⟩ := checked.parked c park parked
      have within := within_tryBlockOp blocks parsed server.human park.db now
        (node.stores (node.conns c).home)
      refine ⟨⟨checked.conns, checked.pending, ?_⟩,
        forall_mem_singleton.mpr (cleared.lawful fun _ => within)⟩
      split_ifs
      · exact (checked.unpark c).parked
      · exact checked.parked
  | leave c => exact ⟨checked.unpark c, still⟩
  | remapped map => exact ⟨checked.remapped steady, still⟩
  | replica replica inSync =>
    exact ⟨⟨checked.conns, checked.pending, checked.parked⟩, still⟩
  | replicaGone replica => exact ⟨⟨checked.conns, checked.pending, checked.parked⟩, still⟩
  | replicaRead inSync => exact ⟨⟨checked.conns, checked.pending, checked.parked⟩, still⟩

end

end Steps

instance (self : ν) [DecidableEq ν] (map : SlotMap ν) (asking : Bool) (slot : ℕ) :
    Decidable (Serves self map asking slot) :=
  inferInstanceAs (Decidable (_ ∨ _))

instance {E κ ν : Type} [DecidableEq ν] (server : Server E κ ν) (node : Node E κ ν) (c now : ℕ)
    (request : Request) : Decidable (node.Steady server (.command c now request)) :=
  inferInstanceAs (Decidable (_ → ∀ key ∈ _, ite _ _ _))

end IronCache.Serve
