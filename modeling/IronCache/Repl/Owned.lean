import IronCache.Repl.Roles

/-!
# Owned slots under replication

A full sync replaces the whole store and a tail applies every frame, both without a look at the slot
map. The keys of owned slots are safe as long as the map keeps the two roles of a node apart.
-/

namespace IronCache.Repl

open Store Cluster Protocol
open Watched
open List

variable {E ν τ : Type} [EvictionPolicy E] [DecidableEq ν]

/-- A step of the replica: the swap of a full sync, a resume, or a frame of the tail. -/
def NodeEvent.Replicates : NodeEvent ν τ → Prop
  | .synced _ _ _ | .resumed | .frame _ _ => True
  | _ => False

namespace Node

/-- The node owns the slot of a key. -/
def Owns (params : NodeParams E ν τ) (node : Node E ν τ) (key : Bytes) : Prop :=
  node.map.owns params.self (keySlot key) = true

/-- The condition: no full sync is completed and no link resumed while the map gives the node a slot,
and no committed entry gives it one while its link is up. -/
def RolesApart (params : NodeParams E ν τ) (node : Node E ν τ) : NodeEvent ν τ → Prop
  | .synced _ _ _ | .resumed => ∀ slot, node.map.owns params.self slot = false
  | .commit cmd => node.Attached → ∀ slot, (node.map.apply params.self cmd).owns params.self slot = false
  | _ => True

/-- A node whose link is up owns nothing. -/
def OwnsOrFollows (params : NodeParams E ν τ) (node : Node E ν τ) : Prop :=
  node.Attached → ∀ slot, node.map.owns params.self slot = false

variable {params : NodeParams E ν τ} {node next : Node E ν τ} {event : NodeEvent ν τ}

theorem OwnsOrFollows.step (apart : node.OwnsOrFollows params) (stays : node.RolesApart params event) :
    (node.step params event).OwnsOrFollows params := by
  cases event with
  | commit cmd => exact stays
  | write op => exact apart
  | reap db key now =>
    simp only [Node.step]
    split_ifs <;> exact apart
  | publishHead | publishReplica _ _ | publishGone _ | failover | abortedCutover => exact apart
  | poll | unresolved now =>
    simp only [Node.step]
    split_ifs <;> exact apart
  | dial =>
    simp only [Node.step]
    split_ifs
    · split
      · exact fun up => absurd up Bool.false_ne_true
      · exact apart
    · exact apart
  | synced token entries endOffset =>
    rcases synced_cases params with same | ⟨owner, store, -, -, stepped⟩
    · rw [same]
      exact apart
    · rw [stepped]
      exact fun _ => stays
  | resumed =>
    rcases resumed_cases params with same | ⟨owner, token, -, -, -, stepped⟩
    · rw [same]
      exact apart
    · rw [stepped]
      exact fun _ => stays
  | frame frame now =>
    simp only [Node.step]
    split
    · rename_i owner token applied tailing
      have up : node.Attached := by
        unfold Attached
        rw [tailing]
        rfl
      unfold tailFrame
      split <;> exact fun _ => apart up
    · exact apart
  | ended now =>
    simp only [Node.step]
    split_ifs
    · exact apart
    · exact fun up => absurd up Bool.false_ne_true

/-- In every run of a node whose map keeps its roles apart: no swap and no frame adds, changes or
removes a key of a slot that the node owns at that moment. -/
theorem owned_kept_run (booted : node.Booted) {events : List (NodeEvent ν τ)} {event : NodeEvent ν τ}
    (meets : Guarded.Throughout (step params) (RolesApart params) node (events ++ [event]))
    (replicates : event.Replicates) {place : ℕ × Bytes}
    (owned : (events.foldl (step params) node).Owns params place.2) :
    ((events.foldl (step params) node).step params event).store.contents place =
      (events.foldl (step params) node).store.contents place := by
  obtain ⟨before, stays, -⟩ := meets.of_append
  have unattached : ¬node.Attached := by
    unfold Attached
    rw [booted.idle]
    exact Bool.false_ne_true
  have apart : (events.foldl (step params) node).OwnsOrFollows params :=
    before.invariant (fun _ _ apart stays => apart.step stays) fun up => absurd up unattached
  generalize events.foldl (step params) node = reached at *
  have owns (slotless : ∀ slot, reached.map.owns params.self slot = false) : False :=
    absurd (owned.symm.trans (slotless _)) (by decide)
  cases event with
  | synced token entries endOffset => exact (owns stays).elim
  | resumed => exact (owns stays).elim
  | frame frame now =>
    simp only [Node.step]
    split
    · rename_i owner token applied tailing
      refine (owns (apart ?_)).elim
      unfold Attached
      rw [tailing]
      rfl
    · rfl
  | _ => exact absurd replicates not_false

/-- After it has dialed, node 0 loads the key `a` of node 1 and applies a frame; it is given the slot
of `a` when its link is down. -/
def handedOver : List (NodeEvent ℕ ℕ) :=
  [.synced 1 [(0, [97], .fromBytes [97] [1] none)] 4, .frame (.streamDel 5 0 [98]) 8, .ended 10,
    .commit (.assignSlots 0 [keySlot [97]])]

/-- A late frame that removes the key comes to nothing. -/
theorem owned_kept_run_handedOver :
    ∃ node, node = (.dial :: handedOver).foldl (step replicaParams) (replicaNode fun _ => 1) ∧
      node.Owns replicaParams [97] ∧ (node.store.contents (0, [97])).isSome ∧
        (node.step replicaParams (.frame (.streamDel 6 0 [97]) 12)).store.contents (0, [97]) =
          node.store.contents (0, [97]) := by
  have dialed := @Watched.dial_replicaMap (fun _ => 1) (replicaNode fun _ => 1) rfl rfl
  have meets : Guarded.Throughout (step replicaParams) (RolesApart replicaParams)
      (replicaNode fun _ => 1) ((.dial :: handedOver) ++ [.frame (.streamDel 6 0 [97]) 12]) := by
    refine ⟨trivial, ?_⟩
    rw [dialed]
    exact ⟨fun _ => rfl, trivial, trivial, fun up => absurd up Bool.false_ne_true, trivial, trivial⟩
  have owned : ((.dial :: handedOver).foldl (step replicaParams) (replicaNode fun _ => 1)).Owns
      replicaParams [97] := by
    unfold Owns
    rw [foldl_cons, dialed]
    decide +kernel
  refine ⟨_, rfl, owned, ?_, owned_kept_run (booted_replicaNode _) meets trivial owned⟩
  rw [foldl_cons, dialed]
  decide +kernel

private theorem owns_replicaNode {node : Node NullEviction ℕ ℕ}
    (map : node.map = replicaMap fun slot => if slot < 2 then 1 else 0) : node.Owns replicaParams [97] := by
  have other : ¬keySlot [97] < 2 := by decide +kernel
  unfold Owns
  rw [map]
  exact decide_eq_true (congrArg some (if_neg other))

/-- Node 0 holds a key of its own, and the full sync of the other two slots removes it. -/
theorem owned_lost_by_sync : (replicaNode fun slot => if slot < 2 then 1 else 0).Booted ∧
      ∀ node, node = [.write (.upsert 0 [97] (.bytes [1]) .clear 3), .dial].foldl
          (step replicaParams) (replicaNode fun slot => if slot < 2 then 1 else 0) →
        node.Owns replicaParams [97] ∧ (node.store.contents (0, [97])).isSome ∧
          (node.step replicaParams (.synced 1 [] 0)).store.contents (0, [97]) = none := by
  refine ⟨booted_replicaNode _, fun node reached => ?_⟩
  rw [foldl_cons, foldl_cons, foldl_nil,
    @Watched.dial_replicaMap (fun slot => if slot < 2 then 1 else 0) _ rfl rfl] at reached
  subst reached
  exact ⟨owns_replicaNode rfl, rfl, rfl⟩

end Node

end IronCache.Repl
