import IronCache.Raft.Cluster
import IronCache.Raft.Simulation.Snapshots

/-!
# Every run of a cluster refines the history

Two conditions on a step are needed: a leader changes the membership only after a commit of its own
term, and no append from the start of the log reaches a node whose snapshot covers two entries.
-/

namespace IronCache.Raft

open Consensus (Protocol Inv Extends Step Steps SameNode)
open List
open Function
open Consensus.State
open MemStorage

variable {machine : StateMachine}

/-- A leader that accepts a membership change has committed in its own term. -/
def ChangesSafely (node : RaftNode machine) : Input → Prop
  | .propose payload => node.role = .leader → payload.change?.isSome → node.membershipChangeInFlight = false →
      node.storage.termAt node.commitIndex = node.storage.currentTerm
  | _ => True

/-- An append that starts below the whole log does not reach far below a snapshot. -/
def AppendsSafely (node : RaftNode machine) : Input → Prop
  | .message _ (.appendEntries term _ prevLogIndex _ entries _) =>
    node.storage.currentTerm ≤ term → entries ≠ [] → prevLogIndex = 0 →
    node.storage.snapIndex ≤ 1
  | _ => True

instance (node : RaftNode machine) : DecidablePred (ChangesSafely node)
  | .propose _ => inferInstanceAs (Decidable (_ → _ → _ → _))
  | .message _ _ => .isTrue trivial
  | .timer _ => .isTrue trivial

instance (node : RaftNode machine) : DecidablePred (AppendsSafely node) := fun input => by
  unfold AppendsSafely
  split <;> infer_instance

/-- A message reaches a node only if the history gives its sender reason to send it. -/
def Expected (setup : Setup machine) (compacts : Prop) (history : History) (owner : NodeId) : Input → Prop
  | .message source msg => source ≠ owner ∧ Genuine setup compacts history source owner msg
  | _ => True

namespace Sim

variable {setup : Setup machine} {compacts : Prop} {before history after : History}
  {start node : RaftNode machine} {owner : NodeId} {ctx : Ctx machine}

theorem begin (node : Explains setup compacts history owner start)
    (inv : Inv (protocol setup.voters) history) (numbered : ∀ term, Indexed (history.branch term))
    (rng : RaftRng) : Sim setup compacts history start owner history { node := start, rng } where
  steps := .refl
  grows := .refl history
  inv := inv
  numbered := numbered
  node := node
  sends := by simp
  ships := by simp
  applied := by simp
  commits := le_rfl
  applies := le_rfl
  last := fun _ => rfl
  ascends := fun _ _ _ found => absurd found (by simp)
  journal := fun _ => ⟨rfl, by simp, by simp⟩

private theorem onTimer (sim : Sim setup compacts before start owner history ctx) (now token : ℕ) :
    sim.Leads (ctx.onTimer now token) := by
  unfold Ctx.onTimer
  split_ifs
  · exact sim.onElectionTimeout now
  · exact sim.onHeartbeatTimer now
  · exact ⟨history, sim⟩

private theorem onMessage (sim : Sim setup compacts before start owner history ctx)
    (different : source ≠ owner) (genuine : Genuine setup compacts before source owner msg)
    (safe : AppendsSafely ctx.node (.message source msg)) (now : ℕ) :
    ∃ done, ctx.onMessage now source msg = .ok done ∧ sim.Leads done := by
  cases msg with
  | requestVote => exact ⟨_, rfl, sim.onRequestVote different genuine now⟩
  | requestVoteResp => exact ⟨_, rfl, sim.onRequestVoteResp genuine now⟩
  | preVote => exact ⟨_, rfl, history, sim.onPreVote different genuine now⟩
  | preVoteResp => exact ⟨_, rfl, sim.onPreVoteResp now source _ _⟩
  | appendEntries => exact sim.onAppendEntries different genuine safe now
  | appendEntriesResp => exact sim.onAppendEntriesResp different genuine now
  | propose => exact genuine.elim
  | forwardPropose => exact genuine.elim
  | forwardProposeResult => exact genuine.elim
  | installSnapshot => exact ⟨_, rfl, sim.onInstallSnapshot different genuine now⟩
  | installSnapshotResp => exact sim.onInstallSnapshotResp different genuine

/-- A whole step of a node. It does not panic. -/
theorem step (explains : Explains setup compacts history owner node)
    (inv : Inv (protocol setup.voters) history) (numbered : ∀ term, Indexed (history.branch term))
    (expected : Expected setup compacts history owner input)
    (changes : ChangesSafely node input) (appends : AppendsSafely node input) (now : ℕ) (rng : RaftRng) :
    ∃ done, node.step now rng input = .ok done ∧
      ∃ after, Sim setup compacts history node owner after done := by
  have sim := begin explains inv numbered rng
  cases input with
  | message source msg => exact sim.onMessage expected.1 expected.2 appends now
  | timer token => exact ⟨_, rfl, sim.onTimer now token⟩
  | propose payload =>
    obtain ⟨done, result, proposed, after, simDone⟩ := sim.propose changes
    refine ⟨done, ?_, after, simDone⟩
    rw [RaftNode.step, proposed]
    rfl

/-- A crash at any point of a step. -/
theorem cut (sim : Sim setup compacts before start owner history ctx) (off : ¬ compacts) (count : ℕ) :
    ∃ middle, Recovery setup compacts before start owner middle
      (start.storage.writeAll ((ctx.writes.take count).map (·.op)))
      (ctx.writes[count]?.elim ctx.applied (·.applied)) := by
  cases found : ctx.writes[count]? with
  | some write => exact (sim.journal off).recovers count write found
  | none =>
    rw [take_of_length_le (getElem?_eq_none_iff.mp found), ← (sim.journal off).logged]
    exact ⟨history, sim.recovery off⟩

end Sim

/-- A node built over what it has persisted is explained by the same history, as a
follower. -/
theorem Persists.rebuilt {setup : Setup machine} {history : History}
    (persists : Persists setup compacts history owner storage)
    (threshold : (setup.config owner).snapshotThreshold ≠ 0 → compacts) :
    Explains setup compacts (history.stepDown owner) owner (setup.build owner storage) := by
  have baseline : storage.loadConfigBaseline.getD (setup.voters, ∅) =
      members setup.voters ((history.log owner).take storage.snapIndex) := by
    unfold loadConfigBaseline
    rcases Nat.eq_zero_or_pos storage.snapIndex with zero | positive
    · rw [persists.noBaseline zero, zero]
      rfl
    · rw [persists.savedBaseline positive]
      rfl
  have built : setup.build owner storage =
      { id := owner
        voters := (members setup.voters (history.log owner)).1
        learners := (members setup.voters (history.log owner)).2
        configBaseline := storage.loadConfigBaseline.getD (setup.voters, ∅)
        config := setup.config owner
        storage
        commitIndex := storage.snapIndex
        lastApplied := storage.snapIndex
        sm := storage.loadSnapshot.elim (setup.blank owner) fun snapshot =>
          machine.restore (setup.blank owner) snapshot.2 } := by
    unfold Setup.build RaftNode.withStateMachine
    rw [loadSnapshot_index]
    exact Sim.recompute_eq persists.log baseline
  rw [built]
  exact {
    ident := rfl
    term := persists.term
    vote := persists.vote
    role := by simp [stepDown, roleOf]
    log := persists.log
    config := rfl
    baseline := baseline
    savedBaseline := fun positive => (persists.savedBaseline positive).trans (congrArg some baseline.symm)
    noBaseline := persists.noBaseline
    compacted := persists.compacted
    threshold := threshold
    snapLe := le_rfl
    appliedLe := le_rfl
    commitLe := persists.log.bound
    committed := persists.committed
    tally := nofun
    matched := nofun
    next := nofun
    idle := fun _ => rfl
    ownAck := nofun
    buffer := nofun
    state := fun image => by
      cases recorded : storage.snapMeta with
      | none =>
        rw [snapIndex_of_none recorded, loadSnapshot_eq_none.mpr recorded]
        exact image.blank owner
      | some snapshot =>
        have positive : 0 < storage.snapIndex := by
          rw [snapIndex_of_some recorded]
          exact (persists.log.snapshot snapshot recorded).1
        rw [loadSnapshot_eq_some.mpr ⟨recorded, rfl⟩, persists.data positive image]
        exact image.restore _ _
    data := persists.data }

/-- What a node has applied in its current life and in each earlier one, and what it has
written. Order and writes are accounted for without snapshots only. -/
structure Recorded (compacts : Prop) (history : History) (lastApplied : ℕ)
    (applied : List LogEntry) (retired : List (List LogEntry)) (writes : List Write) : Prop where
  chosen : ∀ life ∈ applied :: retired, ∀ entry ∈ life, Chosen history entry
  total : ¬ compacts → lastApplied = applied.length
  ascends : ¬ compacts → ∀ life ∈ applied :: retired, Ascends 0 life
  kept : ¬ compacts → ∀ write ∈ writes, ∀ index, write.op = .truncateFrom index → write.commitIndex < index

/-- A cluster as the history explains it. -/
structure Explained (setup : Setup machine) (compacts : Prop) (history : History)
    (cluster : Cluster machine) : Prop where
  inv : Inv (protocol setup.voters) history
  numbered : ∀ term, Indexed (history.branch term)
  nodes : ∀ owner, Explains setup compacts history owner (cluster.nodes owner)
  network : ∀ packet ∈ cluster.network, packet.source ≠ packet.dest ∧
    Genuine setup compacts history packet.source packet.dest packet.msg
  shipped : ∀ packet ∈ cluster.network, ∀ snapshot, packet.msg.snapshot? = some snapshot →
    ∃ storage ∈ cluster.shipped packet.source, Shipment setup history storage snapshot
  recorded : ∀ owner, Recorded compacts history (cluster.nodes owner).lastApplied
    (cluster.applied owner) (cluster.retired owner) (cluster.writes owner)

/-- The conditions under which an action keeps to the history. -/
def ActsSafely (compacts : Prop) (cluster : Cluster machine) (action : Action) : Prop :=
  (∀ target ∈ cluster.addressed action, ChangesSafely (cluster.nodes target.1) target.2 ∧
    AppendsSafely (cluster.nodes target.1) target.2) ∧
  (compacts → action.Whole)

theorem Ascends.append (ascends : Ascends base front) (more : Ascends (base + front.length) back) :
    Ascends base (front ++ back) := by
  intro position entry found
  rcases Nat.lt_or_ge position front.length with inside | outside
  · rw [getElem?_append_left inside] at found
    exact ascends position entry found
  rw [getElem?_append_right outside] at found
  have := more _ entry found
  omega

namespace Recorded

variable {compacts : Prop} {history after : History}

section

variable (recorded : Recorded compacts history last applied retired writes)
include recorded

theorem mono (grows : Extends history after) :
    Recorded compacts after last applied retired writes :=
  { recorded with
    chosen := fun life member entry inLife => (recorded.chosen life member entry inLife).mono grows }

theorem extend (chosen : ∀ entry ∈ more, Chosen history entry)
    (later : ¬ compacts → last' = last + more.length) (ascends : ¬ compacts → Ascends last more)
    (kept : ¬ compacts → ∀ write ∈ made, ∀ index, write.op = .truncateFrom index →
      write.commitIndex < index) :
    Recorded compacts history last' (applied ++ more) retired (writes ++ made) where
  chosen := fun life member entry inLife => by
    rcases mem_cons.mp member with rfl | earlier
    · rcases mem_append.mp inLife with before | now
      · exact recorded.chosen applied (.head _) entry before
      · exact chosen entry now
    · exact recorded.chosen life (.tail _ earlier) entry inLife
  total := fun off => by
    rw [later off, recorded.total off, length_append]
  ascends := fun off life member => by
    rcases mem_cons.mp member with rfl | earlier
    · refine (recorded.ascends off applied (.head _)).append ?_
      rw [Nat.zero_add, ← recorded.total off]
      exact ascends off
    · exact recorded.ascends off life (.tail _ earlier)
  kept := fun off write member index truncates => by
    rcases mem_append.mp member with earlier | now
    · exact recorded.kept off write earlier index truncates
    · exact kept off write now index truncates

private theorem retire (fresh : ¬ compacts → last' = 0) :
    Recorded compacts history last' [] (applied :: retired) writes where
  chosen := fun life member entry inLife => by
    rcases mem_cons.mp member with rfl | earlier
    · exact absurd inLife (by simp)
    · exact recorded.chosen life earlier entry inLife
  total := fresh
  ascends := fun off life member => by
    rcases mem_cons.mp member with rfl | earlier
    · exact fun _ _ found => absurd found (by simp)
    · exact recorded.ascends off life earlier
  kept := recorded.kept

end

end Recorded

namespace Explained

variable {setup : Setup machine} {compacts : Prop} {history after : History} {cluster : Cluster machine}

section

variable (explained : Explained setup compacts history cluster)
include explained

theorem expected (found : cluster.target cause = some (owner, input)) :
    Expected setup compacts history owner input := by
  cases cause with
  | deliver position =>
    obtain ⟨packet, inNetwork, same⟩ := Option.map_eq_some_iff.mp found
    obtain ⟨rfl, rfl⟩ := Prod.mk.inj same
    exact explained.network packet (mem_of_getElem? inNetwork)
  | timer node token =>
    obtain ⟨rfl, rfl⟩ := Prod.mk.inj (Option.some.inj found)
    trivial
  | propose node payload =>
    obtain ⟨rfl, rfl⟩ := Prod.mk.inj (Option.some.inj found)
    trivial

/-- One node has moved on with the history; the others are as they were. -/
theorem update (steps : Steps (protocol setup.voters) owner history after)
    (numbered : ∀ term, Indexed (after.branch term)) (node : Explains setup compacts after owner node')
    (network : ∀ packet ∈ network', packet ∈ cluster.network ∨ packet.source ≠ packet.dest ∧
      Genuine setup compacts after packet.source packet.dest packet.msg)
    (known : ∀ sender, cluster.shipped sender ⊆ shipped' sender)
    (shipped : ∀ packet ∈ network', packet ∈ cluster.network ∨ ∀ snapshot,
      packet.msg.snapshot? = some snapshot → ∃ storage ∈ shipped' packet.source,
      Shipment setup after storage snapshot)
    (recorded : Recorded compacts after node'.lastApplied applied' retired' writes') :
    Explained setup compacts after
      { nodes := Function.update cluster.nodes owner node'
        network := network'
        applied := Function.update cluster.applied owner applied'
        retired := Function.update cluster.retired owner retired'
        writes := Function.update cluster.writes owner writes'
        shipped := shipped' } where
  inv := (explained.inv.steps steps).1
  numbered := numbered
  nodes := fun other => by
    rcases eq_or_ne other owner with rfl | different
    · simpa only [update_self] using node
    · simp only [update_of_ne different]
      exact (explained.nodes other).mono (explained.inv.steps steps).2 (steps.others different)
  network := fun packet member => by
    rcases network packet member with earlier | now
    · obtain ⟨different, genuine⟩ := explained.network packet earlier
      exact ⟨different, genuine.mono (explained.inv.steps steps).2⟩
    · exact now
  shipped := fun packet member snapshot carries => by
    rcases shipped packet member with earlier | now
    · obtain ⟨storage, held, shipment⟩ := explained.shipped packet earlier snapshot carries
      exact ⟨storage, known _ held, shipment.mono (explained.inv.steps steps).2⟩
    · exact now snapshot carries
  recorded := fun other => by
    rcases eq_or_ne other owner with rfl | different
    · simpa only [update_self] using recorded
    · simpa only [update_of_ne different] using (explained.recorded other).mono (explained.inv.steps steps).2

theorem release (sim : Sim setup compacts history (cluster.nodes owner) owner after done) :
    Explained setup compacts after (cluster.release owner done) := by
  have moved := explained.update sim.steps sim.numbered sim.node
    (fun packet (member : packet ∈ cluster.network ++
      done.out.sends.map fun sent => ⟨owner, sent.1, sent.2⟩) => by
      rcases mem_append.mp member with earlier | now
      · exact .inl earlier
      obtain ⟨⟨dest, msg⟩, sent, rfl⟩ := mem_map.mp now
      obtain ⟨different, genuine⟩ := sim.sends dest msg sent
      exact .inr ⟨different.symm, genuine⟩)
    (fun sender storage held => show storage ∈ Function.update cluster.shipped owner
        (cluster.shipped owner ++ done.shipped) sender by
      rcases eq_or_ne sender owner with rfl | different
      · simp [held]
      · simpa [different] using held)
    (fun packet member => by
      rcases mem_append.mp member with earlier | now
      · exact .inl earlier
      obtain ⟨⟨dest, msg⟩, sent, rfl⟩ := mem_map.mp now
      refine .inr fun snapshot carries => ?_
      obtain ⟨storage, held, shipment⟩ := sim.ships dest msg sent snapshot carries
      exact ⟨storage, by simp [held], shipment⟩)
    (((explained.recorded owner).mono sim.grows).extend sim.applied sim.last sim.ascends
      fun off => (sim.journal off).kept)
  rwa [Function.update_eq_self] at moved

/-- A node is rebuilt from what a crash has left of a step. -/
theorem rebuild (threshold : (setup.config owner).snapshotThreshold ≠ 0 → compacts)
    (steps : Steps (protocol setup.voters) owner history after)
    (numbered : ∀ term, Indexed (after.branch term)) (persists : Persists setup compacts after owner storage)
    (chosen : ∀ entry ∈ more, Chosen after entry)
    (ascends : ¬ compacts → Ascends (cluster.nodes owner).lastApplied more)
    (kept : ¬ compacts → ∀ write ∈ made, ∀ index, write.op = .truncateFrom index → write.commitIndex < index) :
    Explained setup compacts (after.stepDown owner)
        (cluster.rebuild setup owner storage more made) ∧
      Extends history (after.stepDown owner) := by
  have down : Step (protocol setup.voters) owner after (after.stepDown owner) := .stepDown after
  have grows := (explained.inv.steps (steps.tail down)).2
  have node := persists.rebuilt threshold
  refine ⟨explained.update (steps.tail down) numbered node
    (fun packet member => .inl member) (fun _ => List.Subset.refl _)
    (fun packet member => .inl member) ?_, grows⟩
  have lived := ((explained.recorded owner).mono grows).extend chosen (fun _ => rfl) ascends kept
  refine lived.retire fun off => ?_
  have uncompacted : storage.snapIndex = 0 := by
    by_contra positive
    exact off (persists.compacted (Nat.pos_of_ne_zero positive))
  exact loadSnapshot_index.trans uncompacted

theorem step (found : cluster.target cause = some target)
    (safe : ChangesSafely (cluster.nodes target.1) target.2 ∧ AppendsSafely (cluster.nodes target.1) target.2)
    (now : ℕ) (rng : RaftRng) : ∃ done, (cluster.nodes target.1).step now rng target.2 = .ok done ∧ ∃ after,
      Sim setup compacts history (cluster.nodes target.1) target.1 after done :=
  Sim.step (explained.nodes _) explained.inv explained.numbered (explained.expected found)
    safe.1 safe.2 now rng

/-- Every action that meets the conditions keeps the cluster explained. -/
theorem act (threshold : ∀ owner, (setup.config owner).snapshotThreshold ≠ 0 → compacts)
    (safe : ActsSafely compacts cluster action) :
    ∃ after, Explained setup compacts after (cluster.act setup action) ∧ Extends history after := by
  cases action with
  | step cause now rng =>
    cases found : cluster.target cause with
    | none =>
      rw [(Cluster.act_of_none found now rng 0).1]
      exact ⟨history, explained, .refl history⟩
    | some target =>
      obtain ⟨done, result, after, sim⟩ := explained.step found (safe.1 target found) now rng
      rw [Cluster.act_step_of_ok found result]
      exact ⟨after, explained.release sim, sim.grows⟩
  | crash cause now rng count =>
    have off : ¬ compacts := safe.2
    cases found : cluster.target cause with
    | none =>
      rw [(Cluster.act_of_none found now rng count).2]
      exact ⟨history, explained, .refl history⟩
    | some target =>
      obtain ⟨done, result, after, sim⟩ := explained.step found (safe.1 target found) now rng
      obtain ⟨middle, recovery⟩ := sim.cut off count
      rw [Cluster.act_crash found, result]
      exact ⟨_, explained.rebuild (threshold _) recovery.steps recovery.numbered
        recovery.persists recovery.chosen (fun _ => recovery.ascends)
        fun _ write member => (sim.journal off).kept write (mem_of_mem_take member)⟩
  | restart owner =>
    exact ⟨_, explained.rebuild (threshold owner) .refl explained.numbered
      (explained.nodes owner).persists (by simp) (fun _ _ _ found => absurd found (by simp)) (by simp)⟩

omit explained in
theorem boot (setup : Setup machine) (compacts : Prop)
    (threshold : ∀ owner, (setup.config owner).snapshotThreshold ≠ 0 → compacts) :
    Explained setup compacts initial setup.boot where
  inv := .initial _
  numbered := fun _ _ _ found => absurd found (by simp [initial])
  nodes := fun owner => by
    have blank : Persists setup compacts initial owner {} :=
      { term := rfl
        vote := fun _ _ cast => absurd cast (by simp [initial])
        log := .initial
        savedBaseline := fun positive => absurd positive (by decide)
        noBaseline := fun _ => rfl
        compacted := fun positive => absurd positive (by decide)
        committed := .inl rfl
        data := fun positive => absurd positive (by decide) }
    have same : (initial : History).stepDown owner = initial := by
      unfold stepDown initial
      congr 1
      exact Function.update_eq_self owner _
    exact same ▸ blank.rebuilt (threshold owner)
  network := by simp [Setup.boot]
  shipped := by simp [Setup.boot]
  recorded := fun owner =>
    { chosen := by simp [Setup.boot]
      total := fun _ => rfl
      ascends := fun _ life member => by
        obtain rfl := mem_singleton.mp member
        exact fun _ _ found => absurd found (by simp [Setup.boot])
      kept := by simp [Setup.boot] }

theorem reaches {Allowed : Cluster machine → Action → Prop}
    (threshold : ∀ owner, (setup.config owner).snapshotThreshold ≠ 0 → compacts)
    (safe : ∀ history cluster action, Explained setup compacts history cluster →
      Allowed cluster action → ActsSafely compacts cluster action)
    (reached : Reaches setup Allowed cluster target) :
    ∃ after, Explained setup compacts after target ∧ Extends history after := by
  induction reached with
  | refl => exact ⟨history, explained, .refl history⟩
  | act _ allowed ih =>
    obtain ⟨middle, explained', grows⟩ := ih
    obtain ⟨after, explained'', grows'⟩ :=
      explained'.act threshold (safe middle _ _ explained' allowed)
    exact ⟨after, explained'', grows.trans grows'⟩

theorem appendsSafely (off : ¬ compacts) (owner : NodeId) (input : Input) :
    AppendsSafely (cluster.nodes owner) input := by
  unfold AppendsSafely
  split
  · by_contra covers
    exact off ((explained.nodes owner).compacted (by omega))
  · trivial

end

end Explained

end IronCache.Raft
