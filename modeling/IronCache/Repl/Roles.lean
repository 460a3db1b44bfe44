import IronCache.Repl.Promotion

/-!
# What a node is in its role

An owner of slots is to record every change of its store and to expire what is due; a replica is to
leave both to its owner.
-/

namespace IronCache.Repl

open Store Cluster Protocol
open Watched

variable {E ν τ : Type} [EvictionPolicy E] [DecidableEq ν]

namespace Node

def Attached (node : Node E ν τ) : Prop := node.phase.owner?.isSome

/-- A full primary: nothing is passive, so that due keys are removed by a read as by the reaper; the
ring carries a log that leads from the store of the start to the present one, and each further
change goes to the ring under the offsets that follow. -/
structure FullPrimary (params : NodeParams E ν τ) (start : ShardStore E) (node : Node E ν τ) : Prop where
  store : node.store.passive = false
  shard : node.replicaPassive = false
  expires : ∀ db key now entry, node.store.find (node.store.dbIndex db) key = some entry →
    entry.isExpired now = true → ∀ event ∈ [.write (.read db key now), .reap db key now],
      (node.step params event).store.contents (node.store.dbIndex db, key) = none
  records : ∃ log, node.ring.Carries 0 log ∧ node.store.contents = start.replayEvents log ∧
    ∀ op : Op, op.Honest → op.Observable node.store → ∃ events,
      (node.step params (.write op)).store.contents = node.store.replayEvents events ∧
        (node.step params (.write op)).ring = node.ring.pushAll events ∧
          (node.step params (.write op)).ring.Carries 0 (log ++ events)

/-- A node that owns slots, replicates none and is not attached is a full primary; a node that is
attached is passive. -/
structure InRole (params : NodeParams E ν τ) (start : ShardStore E) (node : Node E ν τ) : Prop where
  primary : node.map.OwnerOnly params.self → ¬node.Attached → node.FullPrimary params start
  replica : node.Attached → node.store.passive = true ∧ node.replicaPassive = true

end Node

/-- A node, and whether it was attached at some time since its start. -/
structure Course (E ν τ : Type) where
  node : Node E ν τ
  hasAttached : Bool

namespace Course

def next (course : Course E ν τ) (node : Node E ν τ) : Course E ν τ :=
  ⟨node, course.hasAttached || node.phase.owner?.isSome⟩

def step (params : NodeParams E ν τ) (course : Course E ν τ) (event : NodeEvent ν τ) : Course E ν τ :=
  course.next (course.node.step params event)

private theorem node_run (params : NodeParams E ν τ) (course : Course E ν τ) (events : List (NodeEvent ν τ)) :
    (events.foldl (step params) course).node = events.foldl (Node.step params) course.node := by
  induction events generalizing course with
  | nil => rfl
  | cons event events ih => exact ih (course.step params event)

/-- The condition: a node that was attached since its start does not come to own slots, to replicate
none and to be attached no longer, no cutover is aborted on a node that is attached, and every call
of the store is one that the observer can follow. -/
def StaysPosted (params : NodeParams E ν τ) (course : Course E ν τ) : NodeEvent ν τ → Prop
  | .write op => op.Honest ∧ op.Observable course.node.store
  | .commit cmd => course.hasAttached = true → (course.node.map.apply params.self cmd).OwnerOnly params.self →
      course.node.Attached
  | .ended _ => course.node.Attached → ¬course.node.map.OwnerOnly params.self
  | .abortedCutover => ¬course.node.Attached
  | _ => True

/-- The observer of the start still feeds the ring. -/
structure Recording (start : ShardStore E) (node : Node E ν τ) : Prop where
  active : node.store.passive = false
  shard : node.replicaPassive = false
  observing : node.store.observed = some (heard node.store)
  carries : node.ring.Carries 0 (heard node.store)
  reported : Op.Reported start node.store (heard node.store)

structure Posted (params : NodeParams E ν τ) (start : ShardStore E) (course : Course E ν τ) : Prop where
  present : 0 < course.node.store.databases
  recording : course.hasAttached = false → Recording start course.node
  history : course.node.Attached → course.hasAttached = true
  replica : course.node.Attached → course.node.store.passive = true ∧ course.node.replicaPassive = true
  owner : course.node.map.OwnerOnly params.self → ¬course.node.Attached → course.hasAttached = false

variable {params : NodeParams E ν τ} {start : ShardStore E} {course : Course E ν τ} {node : Node E ν τ}
variable {store : ShardStore E} {later : Node E ν τ} {owner : ν} {token : Option τ}

omit [EvictionPolicy E] [DecidableEq ν] in
theorem withStore_ring (observing : node.store.observed = some (heard node.store))
    (told : store.observed = node.store.observed.map (· ++ events)) :
    heard store = heard node.store ++ events ∧ store.observed = some (heard store) ∧
      (node.withStore store).ring = node.ring.pushAll events := by
  have longer : store.observed = some (heard node.store ++ events) := by
    rw [told, observing]
    rfl
  have grown : heard store = heard node.store ++ events := by
    unfold heard at longer ⊢
    rw [longer]
    rfl
  refine ⟨grown, grown ▸ longer, ?_⟩
  unfold Node.withStore
  rw [grown, List.drop_left]

omit [EvictionPolicy E] in
/-- A step that does not attach the node leaves its history. -/
theorem Posted.hasAttached_next (posted : Posted params start course)
    (attached : later.Attached ↔ course.node.Attached) :
    (course.next later).hasAttached = course.hasAttached := by
  unfold next
  cases up : later.phase.owner?.isSome with
  | false => exact Bool.or_false _
  | true => rw [posted.history (attached.1 up), Bool.true_or]

omit [EvictionPolicy E] in
theorem Posted.aside (posted : Posted params start course) (store : later.store = course.node.store)
    (ring : later.ring = course.node.ring) (shard : later.replicaPassive = course.node.replicaPassive)
    (attached : later.Attached ↔ course.node.Attached)
    (owner : later.map.OwnerOnly params.self → ¬later.Attached → course.hasAttached = false) :
    Posted params start (course.next later) where
  present := by
    change 0 < later.store.databases
    rw [store]
    exact posted.present
  recording := by
    rw [posted.hasAttached_next attached]
    intro never
    obtain ⟨active, serving, observing, carries, reported⟩ := posted.recording never
    exact ⟨store ▸ active, shard.trans serving, store ▸ observing, store ▸ ring ▸ carries, store ▸ reported⟩
  history := by
    rw [posted.hasAttached_next attached]
    exact fun up => posted.history (attached.1 up)
  replica := by
    intro up
    change later.store.passive = true ∧ later.replicaPassive = true
    rw [store, shard]
    exact posted.replica (attached.1 up)
  owner := by
    rw [posted.hasAttached_next attached]
    exact owner

omit [EvictionPolicy E] in
theorem Posted.beside (posted : Posted params start course) (map : later.map = course.node.map)
    (store : later.store = course.node.store) (ring : later.ring = course.node.ring)
    (shard : later.replicaPassive = course.node.replicaPassive)
    (attached : later.Attached ↔ course.node.Attached) : Posted params start (course.next later) := by
  refine posted.aside store ring shard attached ?_
  rw [map, attached]
  exact posted.owner

omit [EvictionPolicy E] in
theorem Posted.still (posted : Posted params start course) : Posted params start (course.next course.node) :=
  posted.beside rfl rfl rfl rfl Iff.rfl

/-- A call of the store that the observer can follow keeps everything in its role. -/
theorem Posted.write (posted : Posted params start course) {op : Op} (honest : op.Honest)
    (observable : op.Observable course.node.store) :
    Posted params start (course.next (course.node.withStore (op.step course.node.store))) := by
  have kept := op.kept_step posted.present honest
  have same := @hasAttached_next _ _ _ _ _ _ _ (course.node.withStore (op.step course.node.store)) posted Iff.rfl
  refine ⟨kept.databases ▸ posted.present, fun never => ?_, fun up => same ▸ posted.history up, fun up => ?_,
    fun only down => same ▸ posted.owner only down⟩
  · obtain ⟨active, shard, observing, carries, reported⟩ := posted.recording (same ▸ never)
    obtain ⟨events, called⟩ := Op.exists_reported posted.present honest observable
    obtain ⟨grown, observing, pushed⟩ := withStore_ring observing called.observed
    refine ⟨kept.passive.trans active, shard, observing, ?_, ?_⟩
    · change (course.node.withStore _).ring.Carries 0 (heard (op.step course.node.store))
      rw [pushed, grown]
      exact carries.pushAll events
    · change Op.Reported start (op.step course.node.store) (heard (op.step course.node.store))
      rw [grown]
      exact reported.trans called
  · obtain ⟨passive, shard⟩ := posted.replica up
    exact ⟨kept.passive.trans passive, shard⟩

omit [EvictionPolicy E] in
/-- A node that is attached and passive is in its role, whatever it was. -/
theorem posted_of_attached (present : 0 < later.store.databases) (up : later.Attached)
    (passive : later.store.passive = true) (shard : later.replicaPassive = true) :
    Posted params start (course.next later) := by
  have attached : (course.next later).hasAttached = true := by
    unfold next
    rw [show later.phase.owner?.isSome = true from up, Bool.or_true]
  refine ⟨present, fun never => ?_, fun _ => attached, fun _ => ⟨passive, shard⟩, fun _ down => absurd up down⟩
  rw [attached] at never
  cases never

private theorem databases_loadAll {entries : List SnapshotEntry} {next : ShardStore E}
    (loaded : loadAll entries store = some next) (present : 0 < store.databases) : 0 < next.databases := by
  induction entries generalizing store with
  | nil =>
    cases loaded
    exact present
  | cons entry entries ih =>
    obtain ⟨db, key, object⟩ := entry
    unfold loadAll at loaded
    split at loaded
    · rename_i read decoded
      refine ih loaded ?_
      have kept := @Op.kept_step _ _ store (.insertObject db read) present trivial
      exact kept.databases ▸ present
    · cases loaded

theorem Posted.frame (posted : Posted params start course)
    (tailing : course.node.phase = .tailing owner token applied) (frame : Frame) (now : ℕ) :
    Posted params start (course.next (course.node.tailFrame owner token applied frame now)) := by
  have up : course.node.Attached := by
    unfold Node.Attached
    rw [tailing]
    rfl
  obtain ⟨passive, shard⟩ := posted.replica up
  have kept : ShardStore.Kept course.node.store
      ((⟨course.node.store, applied⟩ : Replica E).apply frame now).2.store :=
    @Replica.kept_apply _ _ ⟨course.node.store, applied⟩ posted.present frame now
  unfold Node.tailFrame
  split
  · exact posted_of_attached posted.present rfl passive shard
  rename_i outcome replica proper applies
  rw [applies] at kept
  exact posted_of_attached (kept.databases ▸ posted.present) rfl (kept.passive.trans passive) shard

omit [EvictionPolicy E] in
theorem Posted.ended (posted : Posted params start course)
    (stays : course.node.Attached → ¬course.node.map.OwnerOnly params.self) {resume : ResumeState τ}
    {status : ReplNodeStatus} {downSince : Option ℕ} {verdict : Bool} :
    Posted params start (course.next { course.node with
      resume := resume
      status := status
      downSince := downSince
      lastContactInSync := verdict
      phase := .idle }) := by
  by_cases attached : course.node.Attached
  · refine ⟨posted.present, fun never => ?_, fun up => ?_, fun up => ?_, fun owner _ => ?_⟩
    · rw [next, posted.history attached] at never
      cases never
    · exact absurd up Bool.false_ne_true
    · exact absurd up Bool.false_ne_true
    · exact absurd owner (stays attached)
  · exact posted.beside rfl rfl rfl rfl (iff_of_false Bool.false_ne_true attached)

theorem Posted.step (posted : Posted params start course) (fresh : 0 < params.freshShardStore.databases)
    (stays : course.StaysPosted params event) : Posted params start (course.step params event) := by
  unfold Course.step
  cases event with
  | commit cmd =>
    refine posted.aside rfl rfl rfl Iff.rfl fun owner down => ?_
    exact Bool.eq_false_iff.mpr fun once => down (stays once owner)
  | write op => exact posted.write stays.1 stays.2
  | reap db key now =>
    simp only [Node.step]
    split_ifs
    · exact posted.still
    · exact posted.write trivial ⟨trivial, trivial⟩
  | publishHead => exact posted.beside rfl rfl rfl rfl Iff.rfl
  | publishReplica nodeId acked => exact posted.beside rfl rfl rfl rfl Iff.rfl
  | publishGone nodeId => exact posted.beside rfl rfl rfl rfl Iff.rfl
  | poll =>
    simp only [Node.step]
    split_ifs
    · exact posted.beside rfl rfl rfl rfl Iff.rfl
    · exact posted.still
  | unresolved now =>
    simp only [Node.step]
    split_ifs
    · exact posted.beside rfl rfl rfl rfl Iff.rfl
    · exact posted.still
  | dial =>
    simp only [Node.step]
    split_ifs with resting
    · have down := Node.owner?_of_isIdle resting.1
      split
      · refine posted.beside rfl rfl rfl rfl (iff_of_false ?_ ?_)
        · exact Bool.false_ne_true
        · unfold Node.Attached
          rw [down]
          exact Bool.false_ne_true
      · exact posted.still
    · exact posted.still
  | synced token entries endOffset =>
    simp only [Node.step]
    split
    · rename_i owner store dialing loaded
      split_ifs
      · have present := databases_loadAll loaded fresh
        exact posted_of_attached present rfl rfl rfl
      · exact posted.still
    · exact posted.still
  | resumed =>
    rcases Node.resumed_cases params with same | ⟨owner, token, -, -, -, stepped⟩
    · rw [same]
      exact posted.still
    · rw [stepped]
      exact posted_of_attached posted.present rfl rfl rfl
  | frame frame now =>
    simp only [Node.step]
    split
    · rename_i owner token applied tailing
      exact posted.frame tailing frame now
    · exact posted.still
  | ended now =>
    simp only [Node.step]
    split_ifs with resting
    · exact posted.still
    · exact posted.ended stays
  | failover => exact posted.still
  | abortedCutover =>
    have same := @hasAttached_next _ _ _ _ _ _ _ { course.node with
      store := { course.node.store with passive := false } } posted Iff.rfl
    refine ⟨posted.present, fun never => ?_, fun up => absurd up stays, fun up => absurd up stays,
      fun owner down => same ▸ posted.owner owner down⟩
    obtain ⟨-, shard, observing, carries, reported⟩ := posted.recording (same ▸ never)
    exact ⟨rfl, shard, observing, carries, reported.contents, reported.observed, reported.databases⟩

omit [EvictionPolicy E] in
private theorem posted_booted (booted : node.Booted) : Posted params node.store ⟨node, false⟩ := by
  have unattached : ¬node.Attached := by
    unfold Node.Attached
    rw [booted.idle]
    exact Bool.false_ne_true
  have nothing : heard node.store = [] := by
    unfold heard
    rw [booted.observing]
    rfl
  refine ⟨booted.present, fun _ => ⟨booted.active, booted.serving, ?_, ?_, ?_⟩,
    fun attached => absurd attached unattached, fun attached => absurd attached unattached, fun _ _ => rfl⟩
  · rw [nothing]
    exact booted.observing
  · rw [nothing]
    exact booted.ring
  · rw [nothing]
    refine ⟨rfl, ?_, rfl⟩
    change node.store.observed = _
    rw [booted.observing]
    rfl

private theorem contents_read_due (active : store.passive = false)
    (found : store.find (store.dbIndex db) key = some entry) (due : entry.isExpired now = true) :
    (store.read db key now).2.contents =
      (store.removeObject db (store.dbIndex db) key).2.contents := by
  unfold ShardStore.read
  dsimp only
  rw [ShardStore.expireIfDue_of_due found due, active]
  rfl

theorem Posted.fullPrimary (posted : Posted params start course)
    (owner : course.node.map.OwnerOnly params.self) (unattached : ¬course.node.Attached) :
    course.node.FullPrimary params start := by
  obtain ⟨active, shard, observing, carries, reported⟩ := posted.recording (posted.owner owner unattached)
  refine ⟨active, shard, ?_, heard course.node.store, carries, reported.contents, ?_⟩
  · intro db key now entry found due event member
    have gone := (congrFun (ShardStore.contents_removeObject posted.present found) _).trans
      (Function.update_self ..)
    simp only [List.mem_cons, List.not_mem_nil, or_false] at member
    rcases member with rfl | rfl
    · exact (congrFun (contents_read_due active found due) _).trans gone
    have reaped : (course.node.store.reapIfExpired db key now).2 =
        (course.node.store.removeObject db (course.node.store.dbIndex db) key).2 := by
      simp [ShardStore.reapIfExpired, found, due]
    have stepped : (course.node.step params (.reap db key now)).store =
        (course.node.store.reapIfExpired db key now).2 := by
      simp only [Node.step, shard, Bool.false_eq_true, if_false]
      rfl
    rw [stepped, reaped]
    exact gone
  · intro op honest observable
    obtain ⟨events, called⟩ := Op.exists_reported posted.present honest observable
    obtain ⟨-, -, pushed⟩ := withStore_ring observing called.observed
    refine ⟨events, called.contents, pushed, ?_⟩
    change (course.node.withStore (op.step course.node.store)).ring.Carries 0 _
    rw [pushed]
    exact carries.pushAll events

end Course

namespace Node

/-- Over every run of attaches, drops, committed entries, aborted cutovers, store calls and frames
whose steps meet the condition, the node is what its role asks for. -/
theorem inRole_run {params : NodeParams E ν τ} {node : Node E ν τ} (booted : node.Booted)
    (fresh : 0 < params.freshShardStore.databases) {events : List (NodeEvent ν τ)}
    (stays : Guarded.Throughout (Course.step params) (Course.StaysPosted params) ⟨node, false⟩ events) :
    (events.foldl (step params) node).InRole params node.store := by
  have posted : Course.Posted params node.store (events.foldl (Course.step params) ⟨node, false⟩) :=
    stays.invariant (fun _ _ posted stays => posted.step fresh stays) (Course.posted_booted booted)
  rw [← Course.node_run params ⟨node, false⟩]
  exact ⟨posted.fullPrimary, posted.replica⟩

/-- The node owns every slot. -/
def ownerNode : Node NullEviction ℕ ℕ :=
  { replicaNode (fun _ => 0) with map := { nodes := [0, 1], owner := fun _ => some 0 } }

def ownerEvents : List (NodeEvent ℕ ℕ) :=
  [.write (.upsert 0 [97] (.bytes [1]) (.set 9) 3), .abortedCutover, .reap 0 [97] 12,
    .commit (.assignReplica 1 [0])]

theorem inRole_run_ownerEvents :
    (ownerEvents.foldl (step replicaParams) ownerNode).InRole replicaParams ownerNode.store := by
  have booted : ownerNode.Booted :=
    ⟨Nat.zero_lt_two, rfl, rfl, (booted_replicaNode fun _ => 0).ring, rfl, rfl, rfl, rfl, rfl, rfl⟩
  have fresh : 0 < replicaParams.freshShardStore.databases := Nat.zero_lt_two
  exact inRole_run booted fresh ⟨⟨trivial, trivial, trivial⟩, Bool.false_ne_true, trivial,
    (fun attached => by cases attached), trivial⟩

/-- The map after the two slots of node 1 went to the node itself. -/
private theorem ownerOnly_promoted :
    ((replicaMap fun _ => 1).apply 0 (.promoteReplica [0, 1] 0)).OwnerOnly 0 := by
  refine ⟨⟨0, by decide, rfl⟩, ?_⟩
  unfold SlotMap.anyReplicaOfSelf
  rw [List.find?_eq_none]
  intro slot _
  simp only [SlotMap.isReplicaOfSelf, decide_eq_true_eq]
  rcases Nat.lt_or_ge slot 2 with few | more
  · interval_cases slot <;> decide
  have first : slot ≠ 0 := by omega
  have second : slot ≠ 1 := by omega
  simp [SlotMap.apply, SlotMap.promote, SlotMap.setSlotNode, SlotMap.clearSlotReplica,
    SlotMap.setSlotReplica, replicaMap, first, second]
  omega

/-- A replica attaches, loses its owner and is promoted. It owns the slots now and replicates
nothing, and it is passive still; what is written to it does not come to its ring. -/
theorem not_inRole_promoted :
    (replicaNode fun _ => 1).Booted ∧ ∀ node, node = [.dial, .synced 1 [] 0, .ended 10, .commit (.promoteReplica [0, 1] 0)].foldl
        (step replicaParams) (replicaNode fun _ => 1) →
      node.map.OwnerOnly 0 ∧ ¬node.Attached ∧ node.store.passive = true ∧ node.replicaPassive = true ∧
        (node.step replicaParams (.write (.upsert 0 [97] (.bytes [1]) .clear 3))).ring =
          node.ring ∧ ¬node.InRole replicaParams (replicaNode fun _ => 1).store := by
  refine ⟨booted_replicaNode _, fun node reached => ?_⟩
  have dialed := @Watched.dial_replicaMap (fun _ => 1) (replicaNode fun _ => 1) rfl rfl
  rw [List.foldl_cons, dialed] at reached
  subst reached
  refine ⟨ownerOnly_promoted, Bool.false_ne_true, rfl, rfl, rfl, fun role => ?_⟩
  have primary := role.primary ownerOnly_promoted Bool.false_ne_true
  exact absurd primary.store (by decide)

end Node

end IronCache.Repl
