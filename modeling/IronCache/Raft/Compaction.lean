import IronCache.Raft.Safety

/-!
# Logs and snapshots under compaction

An append from the very start of the log passes the consistency check of any node. Without such
appends, stored logs stay contiguous and committed entries stay as they are.
-/

namespace IronCache.Raft

open Consensus (Protocol Inv Extends)

variable {machine : StateMachine}

/-- The stored entries carry the indices from the start of the stored log on, and the log
reaches at least to the snapshot. -/
def MemStorage.Contiguous (storage : MemStorage) : Prop :=
  (∀ position entry, storage.log[position]? = some entry → entry.index = storage.logStartIndex + position) ∧
  ∀ snapshot, storage.snapMeta = some snapshot → snapshot.lastIncludedIndex ≤ storage.lastLogIndex

theorem Represents.contiguous (view : Represents storage log) : storage.Contiguous := by
  refine ⟨fun position entry found => ?_, fun snapshot found => ?_⟩
  · rw [view.entries, List.getElem?_drop] at found
    rw [MemStorage.logStartIndex, view.start, view.indexed _ _ found]
    omega
  · rw [view.lastIndex, ← MemStorage.snapIndex_of_some found]
    exact view.bound

/-- An append, if the action delivers one, does not reach below a node's snapshot. -/
def Cluster.AppendsSafely (cluster : Cluster machine) (action : Action) : Prop :=
  ∀ target ∈ cluster.addressed action, Raft.AppendsSafely (cluster.nodes target.1) target.2

instance : Decidable (Cluster.AppendsSafely cluster action) :=
  inferInstanceAs (Decidable (∀ target ∈ _, _))

/-- Membership changes and appends are safe, and a crash falls between two steps. -/
def Cluster.CompactsSafely (cluster : Cluster machine) (action : Action) : Prop :=
  cluster.ChangesSafely action ∧ cluster.AppendsSafely action ∧ action.Whole

instance : Decidable (Cluster.CompactsSafely cluster action) :=
  inferInstanceAs (Decidable (_ ∧ _ ∧ _))

namespace Explained

variable {setup : Setup machine}

theorem of_compacting (explained : Explained setup True history cluster)
    (reached : Reaches setup Cluster.CompactsSafely cluster later) :
    ∃ after, Explained setup True after later := by
  obtain ⟨after, explained', -⟩ := explained.reaches (fun _ _ => trivial)
    (fun _ _ _ _ safe => ⟨fun target addressed =>
      ⟨safe.1 target addressed, safe.2.1 target addressed⟩, fun _ => safe.2.2⟩) reached
  exact ⟨after, explained'⟩

theorem of_compacting_boot (reached : Reachable setup Cluster.CompactsSafely cluster) :
    ∃ history, Explained setup True history cluster :=
  (Explained.boot setup True fun _ _ => trivial).of_compacting reached

end Explained

namespace Sim

variable {setup : Setup machine} {compacts : Prop} {before history : History} {start : RaftNode machine}
  {owner : NodeId} {ctx : Ctx machine}

/-- What a node held committed before a step is in its log throughout the step. -/
private theorem retains (sim : Sim setup compacts before start owner history ctx)
    (explains : Explains setup compacts before owner start) :
    (before.log owner).take start.commitIndex <+: history.log owner := by
  have committed := explains.committed.mono sim.grows (sim.grows.terms owner)
  have length := List.length_take_of_le explains.commitLe
  have length' := List.length_take_of_le sim.node.commitLe
  rcases committed.comparable sim.node.committed sim.inv with shorter | longer
  · exact shorter.trans (List.take_prefix _ _)
  · have same := longer.eq_of_length_le (by rw [length, length']; exact sim.commits)
    exact same ▸ List.take_prefix _ _

/-- A committed entry a node stored before a step is still there, or compacted. -/
private theorem entryAt_keeps (sim : Sim setup compacts before start owner history ctx)
    (explains : Explains setup compacts before owner start) (within : index ≤ start.commitIndex)
    (held : start.storage.entryAt index = some entry) :
    ctx.node.storage.entryAt index = some entry ∨ index ≤ ctx.node.storage.snapIndex := by
  have above : start.storage.snapIndex < index := by
    by_contra below
    rw [explains.log.entryAt_none (.inl (not_lt.mp below))] at held
    exact absurd held nofun
  rw [explains.log.entryAt above (within.trans explains.commitLe)] at held
  rcases Nat.lt_or_ge ctx.node.storage.snapIndex index with stored | compacted
  swap
  · exact .inr compacted
  have inside := (within.trans sim.commits).trans sim.node.commitLe
  obtain ⟨tail, whole⟩ := sim.retains explains
  left
  rw [sim.node.log.entryAt stored inside, ← whole, List.getElem?_append_left, List.getElem?_take,
    if_pos (by omega), held]
  rw [List.length_take_of_le explains.commitLe]
  omega

end Sim

/-- In a static run whose restarts fall between steps and in which no append reaches below a
snapshot, stored logs are contiguous and reach to their snapshots, and a leader's append, delivered
however often and late, leaves every committed entry a node still stores as it is. -/
theorem log_contiguous_under_compaction (setup : Setup machine)
    (reached : Reachable setup (fun cluster action =>
      action.Static ∧ action.Whole ∧ cluster.AppendsSafely action) cluster) :
    (∀ owner, (cluster.nodes owner).storage.Contiguous) ∧
    ∀ packet ∈ cluster.network, ∀ term leader prevLogIndex prevLogTerm entries leaderCommit,
      packet.msg = .appendEntries term leader prevLogIndex prevLogTerm entries leaderCommit →
      AppendsSafely (cluster.nodes packet.dest) (.message packet.source packet.msg) → ∀ now rng, ∃ done,
        (cluster.nodes packet.dest).step now rng (.message packet.source packet.msg) = .ok done ∧
        ∀ index entry, index ≤ (cluster.nodes packet.dest).commitIndex →
          (cluster.nodes packet.dest).storage.entryAt index = some entry →
          done.node.storage.entryAt index = some entry ∨ index ≤ done.node.storage.snapIndex := by
  obtain ⟨history, explained⟩ := Explained.of_compacting_boot (reached.weaken
    fun _ _ allowed => ⟨fun _ addressed => allowed.1.changesSafely addressed _, allowed.2.2,
      allowed.2.1⟩)
  refine ⟨fun owner => (explained.nodes owner).log.contiguous,
    fun packet member _ _ _ _ _ _ _ safe now rng => ?_⟩
  have explains := explained.nodes packet.dest
  obtain ⟨done, result, after, sim⟩ := Sim.step explains explained.inv explained.numbered
    (show Expected _ _ _ _ (.message packet.source packet.msg) from
      explained.network packet member) trivial safe now rng
  exact ⟨done, result, fun index entry => sim.entryAt_keeps explains⟩

/-- Three voters that compact after every second entry: two of them hold a snapshot of the
first leader's first two entries. -/
def firstSnapshot : List Action :=
  [.step (.timer 1 electionTimeout) 0 [], .step (.deliver 0) 0 [], .step (.deliver 2) 0 [],
    .step (.propose 1 (.bytes [])) 0 [], .step (.deliver 5) 0 [], .step (.deliver 7) 0 [],
    .step (.timer 1 heartbeat) 0 [], .step (.deliver 8) 0 []]

def afterFirstSnapshot : Cluster counting :=
  firstSnapshot.foldl (Cluster.act (electorate 3 { preVote := false, snapshotThreshold := 1 }))
    (electorate 3 { preVote := false, snapshotThreshold := 1 }).boot

theorem log_contiguous_firstSnapshot : (afterFirstSnapshot.nodes 2).storage.snapMeta = some ⟨2, 1⟩ ∧
      (afterFirstSnapshot.nodes 2).storage.Contiguous :=
  ⟨by decide +kernel, (log_contiguous_under_compaction
    (electorate 3 { preVote := false, snapshotThreshold := 1 })
    (Reaches.refl.of_allows (by decide +kernel))).1 2⟩

/-- A second copy of the first leader's append, delivered after the follower has compacted the
entries it carries, puts them behind the snapshot once more. -/
theorem not_contiguous_after_late_append : ∃ cluster,
    Reachable (electorate 3 { preVote := false, snapshotThreshold := 1 })
      (fun _ action => action.Static ∧ action.Whole) cluster ∧
    (cluster.nodes 2).storage.snapMeta = some ⟨2, 1⟩ ∧
    (cluster.nodes 2).storage.logStartIndex = 3 ∧
    (cluster.nodes 2).storage.log = [⟨1, 1, .noop⟩, ⟨1, 2, .bytes []⟩] ∧
    ¬ (cluster.nodes 2).storage.Contiguous := by
  refine ⟨(firstSnapshot ++ [Action.step (.deliver 5) 0 []]).foldl (Cluster.act _) _,
    Reaches.refl.of_allows (by decide +kernel), by decide +kernel, by decide +kernel,
    by decide +kernel, fun contiguous => ?_⟩
  exact absurd (contiguous.1 0 ⟨1, 1, .noop⟩ (by decide +kernel)) (by decide +kernel)

end IronCache.Raft
