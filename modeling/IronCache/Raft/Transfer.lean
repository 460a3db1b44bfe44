import IronCache.Raft.Compaction
import IronCache.Raft.Moves

/-!
# Snapshot transfer

A snapshot arrives in chunks that may be lost, repeated and reordered. What a follower installs is
one whole snapshot of one leader.
-/

namespace IronCache.Raft

open Consensus (Protocol Inv Extends)
open Function

variable {machine : StateMachine}

/-- The index up to which a message confirms the log, if it confirms any. -/
def RaftMsg.acked? : RaftMsg → Option ℕ
  | .appendEntriesResp _ true index => some index
  | .installSnapshotResp _ index true _ => some index
  | _ => none

theorem Input.Acks.acked? (acks : Input.Acks input peer index) :
    ∃ msg : RaftMsg, input = .message peer msg ∧ msg.acked? = some index := by
  rcases acks with ⟨term, same⟩ | ⟨term, next, same⟩
  · exact ⟨_, same, rfl⟩
  · exact ⟨_, same, rfl⟩

/-- Every match index is zero or within something that the peer has confirmed. -/
def Marked (Confirms : NodeId → ℕ → Prop) (marks : OrdMap NodeId ℕ) : Prop :=
  ∀ peer index, marks.get? peer = some index → index = 0 ∨ ∃ bound, Confirms peer bound ∧ index ≤ bound

section Marked

variable {Confirms Confirms' : NodeId → ℕ → Prop} {marks : OrdMap NodeId ℕ}

theorem marked_empty : Marked Confirms ∅ := fun _ _ found => absurd found (by simp)

theorem Marked.mono (marked : Marked Confirms marks)
    (more : ∀ peer index, Confirms peer index → Confirms' peer index) : Marked Confirms' marks := by
  intro peer index found
  rcases marked peer index found with zero | ⟨bound, confirms, within⟩
  · exact .inl zero
  · exact .inr ⟨bound, more peer bound confirms, within⟩

/-- A confirmation raises a peer's match index to what it confirms, or leaves it. -/
theorem Marked.note (marked : Marked Confirms marks) (confirms : Confirms peer index) :
    Marked Confirms (marks.insert peer (max ((marks.get? peer).getD 0) index)) := by
  intro other matched found
  rw [OrdMap.get?_insert] at found
  split_ifs at found with same
  · obtain rfl := Option.some.inj found
    rcases le_total ((marks.get? peer).getD 0) index with below | above
    · exact .inr ⟨index, same ▸ confirms, (max_eq_right below).le⟩
    rw [max_eq_left above]
    cases held : marks.get? peer with
    | none => exact .inl rfl
    | some value => exact same ▸ marked peer value held
  · exact marked other matched found

variable {core after : Core}

theorem Marked.move (marked : Marked Confirms core.matchIndex)
    (confirmed : ∀ peer index, input.Acks peer index → Confirms peer index)
    (move : Move input core after) : Marked Confirms after.matchIndex := by
  cases move with
  | observe | stepDown => exact marked_empty
  | lead marks candidate counted fresh =>
    exact fun peer index found => .inl (fresh peer index found)
  | track marks fresh =>
    intro peer index found
    rcases fresh peer index found with zero | earlier
    · exact .inl zero
    · exact marked peer index earlier
  | note peer index acked => exact marked.note (confirmed peer index acked)
  | _ => exact marked

theorem Marked.moves (marked : Marked Confirms core.matchIndex)
    (confirmed : ∀ peer index, input.Acks peer index → Confirms peer index)
    (moves : Moves input core after) : Marked Confirms after.matchIndex := by
  induction moves with
  | refl => exact marked
  | tail _ move ih => exact ih.move confirmed move

end Marked

namespace Cluster

/-- A peer has sent a node a message that confirms the log up to an index. -/
def Confirms (cluster : Cluster machine) (owner peer : NodeId) (index : ℕ) : Prop :=
  ∃ packet ∈ cluster.network, packet.source = peer ∧ packet.dest = owner ∧ packet.msg.acked? = some index

def Marked (cluster : Cluster machine) : Prop :=
  ∀ owner, Raft.Marked (cluster.Confirms owner) (cluster.nodes owner).matchIndex

variable {cluster : Cluster machine}

theorem Marked.update {after : Cluster machine} (marked : cluster.Marked)
    (nodes : after.nodes = update cluster.nodes owner node) (network : cluster.network ⊆ after.network)
    (rest : Raft.Marked (cluster.Confirms owner) node.matchIndex) : after.Marked := by
  intro other
  have more : ∀ peer index, cluster.Confirms other peer index →
      after.Confirms other peer index := fun peer index confirms => by
    obtain ⟨packet, sent, about⟩ := confirms
    exact ⟨packet, network sent, about⟩
  rw [nodes]
  rcases eq_or_ne other owner with rfl | different
  · rw [update_self]
    exact rest.mono more
  · rw [update_of_ne different]
    exact (marked other).mono more

private theorem confirms_of_target (found : cluster.target cause = some (owner, input))
    (acks : input.Acks peer index) : cluster.Confirms owner peer index := by
  obtain ⟨msg, same, acked⟩ := acks.acked?
  subst same
  cases cause with
  | deliver position =>
    obtain ⟨packet, held, same⟩ := Option.map_eq_some_iff.mp found
    obtain ⟨dest, same⟩ := Prod.mk.inj same
    obtain ⟨source, content⟩ := Input.message.inj same
    exact ⟨packet, List.mem_of_getElem? held, source, dest, content ▸ acked⟩
  | timer node token => exact absurd (Prod.mk.inj (Option.some.inj found)).2 (by simp)
  | propose node payload => exact absurd (Prod.mk.inj (Option.some.inj found)).2 (by simp)

theorem Marked.act (marked : cluster.Marked) (setup : Setup machine) (action : Action) :
    (cluster.act setup action).Marked := by
  have rebuilt : ∀ owner storage applied writes,
      (cluster.rebuild setup owner storage applied writes).Marked :=
    fun owner storage applied writes => marked.update rfl (List.Subset.refl _) marked_empty
  cases action with
  | restart owner => exact rebuilt _ _ _ _
  | crash cause now rng count =>
    cases found : cluster.target cause with
    | none =>
      rw [(Cluster.act_of_none found now rng count).2]
      exact marked
    | some target =>
      rw [Cluster.act_crash found]
      exact rebuilt _ _ _ _
  | step cause now rng =>
    cases found : cluster.target cause with
    | none =>
      rw [(Cluster.act_of_none found now rng 0).1]
      exact marked
    | some target =>
      cases result : (cluster.nodes target.1).step now rng target.2 with
      | error stopped =>
        rw [Cluster.act_step_of_error found result]
        exact rebuilt _ _ _ _
      | ok done =>
        rw [Cluster.act_step_of_ok found result]
        have moves := (cluster.nodes target.1).step_moves now rng target.2
        rw [result] at moves
        exact marked.update rfl (List.subset_append_left _ _) (Raft.Marked.moves (marked target.1)
            (fun peer index => confirms_of_target found) moves)

theorem Marked.reaches (marked : cluster.Marked) (reached : Reaches setup Allowed cluster after) :
    after.Marked := by
  induction reached with
  | refl => exact marked
  | act _ _ ih => exact ih.act setup _

end Cluster

def Write.Saves (write : Write) : Prop := ∃ snapshot data, write.op = .saveSnapshot snapshot data

namespace Ctx

variable {wrote : Write}

private theorem observeTerm_saves (ctx : Ctx machine) (made : wrote ∈ (ctx.observeTerm term).1.writes)
    (saves : wrote.Saves) : wrote ∈ ctx.writes := by
  unfold observeTerm at made
  split_ifs at made with later
  · have writes : ∀ (ctx : Ctx machine) wasLeader,
        ((ctx.cancelHeartbeatIf wasLeader).armElectionTimer).writes = ctx.writes := by
      intro ctx wasLeader
      cases wasLeader <;> rfl
    obtain ⟨snapshot, data, op⟩ := saves
    rw [writes] at made
    rcases List.mem_append.mp made with earlier | now
    · rcases List.mem_append.mp earlier with earlier | now
      · exact earlier
      · rw [List.mem_singleton.mp now] at op
        exact absurd op (by simp)
    · rw [List.mem_singleton.mp now] at op
      exact absurd op (by simp)
  · exact made

private theorem followLeader_writes (ctx : Ctx machine) :
    (ctx.followLeader now leader).writes = ctx.writes := by
  unfold followLeader stepDownToFollower cancelHeartbeatIf
  split_ifs <;> rfl

private theorem receiveChunk_same (received : receiveChunk buffer chunk offset = some rx) :
    rx.lastIncludedIndex = chunk.lastIncludedIndex ∧
      rx.lastIncludedTerm = chunk.lastIncludedTerm := by
  unfold receiveChunk at received
  split at received
  · cases received
    exact ⟨rfl, rfl⟩
  split at received
  · split at received
    · rename_i continues
      cases received
      exact ⟨continues.1, continues.2.1⟩
    · exact absurd received (by simp)
  · exact absurd received (by simp)

/-- A step that saves a snapshot from a chunk saves the chunk's snapshot. -/
private theorem onInstallSnapshot_saves (ctx : Ctx machine) (chunk : SnapshotRx)
    (fresh : ∀ write ∈ ctx.writes, ¬ write.Saves)
    (made : wrote ∈ (ctx.onInstallSnapshot now term leaderId offset done chunk).writes)
    (saves : wrote.Saves) :
    (ctx.onInstallSnapshot now term leaderId offset done chunk).node.storage.snapMeta =
      some ⟨chunk.lastIncludedIndex, chunk.lastIncludedTerm⟩ := by
  have unsaved : ∀ write ∈ (ctx.observeTerm term).1.writes, ¬ write.Saves :=
    fun write made saves => fresh write (ctx.observeTerm_saves made saves) saves
  unfold onInstallSnapshot at made ⊢
  dsimp only at made ⊢
  generalize (ctx.observeTerm term).1 = seen at unsaved made ⊢
  by_cases stale : term < seen.node.storage.currentTerm
  · rw [if_pos stale] at made
    exact absurd saves (unsaved wrote made)
  rw [if_neg stale] at made ⊢
  have unsaved : ∀ write ∈ (seen.followLeader now leaderId).writes, ¬ write.Saves :=
    seen.followLeader_writes.symm ▸ unsaved
  generalize seen.followLeader now leaderId = following at unsaved made ⊢
  cases received : receiveChunk following.node.snapshotRx chunk offset with
  | none =>
    rw [received] at made
    exact absurd saves (unsaved wrote made)
  | some rx =>
    obtain ⟨index, snapTerm⟩ := receiveChunk_same received
    rw [received] at made
    dsimp only at made ⊢
    by_cases partly : ¬ done = true
    · rw [if_pos partly] at made
      exact absurd saves (unsaved wrote made)
    rw [if_neg partly] at made ⊢
    by_cases known : rx.lastIncludedIndex ≤ following.node.commitIndex
    · rw [if_pos known] at made
      exact absurd saves (unsaved wrote made)
    · rw [if_neg known, ← index, ← snapTerm]
      exact (MemStorage.compactTo_fields _ _).2.2.1

end Ctx

variable {setup : Setup machine}

theorem Shipment.snapMeta (shipment : Shipment setup history storage snapshot) :
    storage.snapMeta = some snapshot := by
  obtain ⟨-, -, -, -, -, held, -⟩ := shipment
  exact held

/-- A snapshot that a node saved and one that a leader shipped, with the same index: both are
those of one committed log. -/
theorem Shipment.installed (image : Imaging setup) (shipment : Shipment setup history storage snapshot)
    (explains : Explains setup compacts history owner node)
    (inv : Inv (protocol setup.voters) history) (saved : node.storage.snapMeta = some snapshot) :
    node.storage.snapData = storage.snapData ∧
      node.storage.configBaseline = storage.configBaseline ∧
      storage.configBaseline = some node.configBaseline := by
  obtain ⟨bound, log, voters, learners, describes, -, baseline, data⟩ := shipment
  obtain ⟨-, describes'⟩ := explains.snapshotOf saved
  have index := MemStorage.snapIndex_of_some saved
  have positive : 0 < node.storage.snapIndex := index ▸ describes.positive
  have same := Sim.snapshotOf_unique inv describes describes'
  have members : node.configBaseline = (voters, learners) := by
    rw [← describes.members, same]
    exact describes'.members.symm
  refine ⟨?_, ?_, ?_⟩
  · rw [data image, same, explains.data positive image, index]
  · rw [baseline, explains.savedBaseline positive, members]
  · rw [baseline, members]

namespace Explained

variable {setup : Setup machine} {history : History} {cluster : Cluster machine}

/-- Delivering a chunk, from whichever leader and at whatever time. -/
theorem installs (explained : Explained setup compacts history cluster) (image : Imaging setup)
    (sent : packet ∈ cluster.network) (carries : packet.msg.snapshot? = some snapshot) (now : ℕ)
    (rng : RaftRng) : ∃ done, (cluster.nodes packet.dest).step now rng (.message packet.source packet.msg) =
        .ok done ∧
      ((∃ write ∈ done.writes, write.Saves) → ∃ storage ∈ cluster.shipped packet.source,
        storage.snapMeta = some snapshot ∧ done.node.storage.snapMeta = some snapshot ∧
        done.node.storage.snapData = storage.snapData ∧
        done.node.storage.configBaseline = storage.configBaseline ∧
        storage.configBaseline = some done.node.configBaseline) := by
  obtain ⟨storage, held, shipment⟩ := explained.shipped packet sent snapshot carries
  have expected : Expected setup compacts history packet.dest
      (.message packet.source packet.msg) := explained.network packet sent
  obtain ⟨source, dest, msg⟩ := packet
  cases msg with
  | installSnapshot term leaderId index snapTerm offset data done voters learners =>
    obtain ⟨done, result, after, sim⟩ := Sim.step (explained.nodes dest) explained.inv
      explained.numbered expected trivial trivial now rng
    refine ⟨done, result, fun ⟨write, made, saves⟩ => ⟨storage, held, ?_⟩⟩
    obtain rfl := Except.ok.inj result
    obtain rfl := Option.some.inj carries
    have saved := Ctx.onInstallSnapshot_saves _ _ (by simp) made saves
    exact ⟨shipment.snapMeta, saved, (shipment.mono sim.grows).installed image sim.node sim.inv saved⟩
  | _ => exact absurd carries (by simp [RaftMsg.snapshot?])

/-- A node that is not rebuilt keeps what it has committed and applied. -/
theorem advances (explained : Explained setup True history cluster)
    (safe : cluster.CompactsSafely action) (lives : action ≠ .restart owner) :
    (cluster.nodes owner).commitIndex ≤ ((cluster.act setup action).nodes owner).commitIndex ∧
      (cluster.nodes owner).lastApplied ≤ ((cluster.act setup action).nodes owner).lastApplied := by
  cases action with
  | crash cause now rng count => exact False.elim safe.2.2
  | restart other =>
    have different : owner ≠ other := fun same => lives (same ▸ rfl)
    rw [show ((cluster.act setup (.restart other)).nodes owner) = _ from
      update_of_ne different _ _]
    exact ⟨le_rfl, le_rfl⟩
  | step cause now rng =>
    cases found : cluster.target cause with
    | none =>
      rw [(Cluster.act_of_none found now rng 0).1]
      exact ⟨le_rfl, le_rfl⟩
    | some target =>
      obtain ⟨done, result, after, sim⟩ :=
        explained.step found ⟨safe.1 target found, safe.2.1 target found⟩ now rng
      rw [Cluster.act_step_of_ok found result]
      rcases eq_or_ne owner target.1 with rfl | different
      · rw [show (cluster.release target.1 done).nodes target.1 = _ from
          update_self _ _ _]
        exact ⟨sim.commits, sim.applies⟩
      rw [show (cluster.release target.1 done).nodes owner = _ from
        update_of_ne different _ _]
      exact ⟨le_rfl, le_rfl⟩

private theorem keeps_advancing (explained : Explained setup True history cluster)
    (reached : Reaches setup (fun cluster action =>
      cluster.CompactsSafely action ∧ action ≠ .restart owner) cluster later) :
    (cluster.nodes owner).commitIndex ≤ (later.nodes owner).commitIndex ∧
      (cluster.nodes owner).lastApplied ≤ (later.nodes owner).lastApplied := by
  induction reached with
  | refl => exact ⟨le_rfl, le_rfl⟩
  | act reached allowed ih =>
    obtain ⟨_, explained'⟩ := explained.of_compacting (reached.weaken fun _ _ => And.left)
    obtain ⟨commits, applies⟩ := explained'.advances allowed.1 allowed.2
    exact ⟨ih.1.trans commits, ih.2.trans applies⟩

end Explained

/-- Snapshot transfer. Whenever a follower saves a snapshot it was sent, the index, the term,
the bytes, the voters and the learners are those of one snapshot that the sender held; until a
node restarts, its commit index and its last applied index never decrease; and in every run at all
a leader's match index for a peer is within what the peer has confirmed to it. -/
theorem snapshot_transfer (setup : Setup machine) (image : Imaging setup) :
    (∀ cluster, Reachable setup Cluster.CompactsSafely cluster →
      (∀ packet ∈ cluster.network, ∀ snapshot, packet.msg.snapshot? = some snapshot → ∀ now rng,
        ∃ done, (cluster.nodes packet.dest).step now rng (.message packet.source packet.msg) =
            .ok done ∧
          ((∃ write ∈ done.writes, write.Saves) → ∃ storage ∈ cluster.shipped packet.source,
            storage.snapMeta = some snapshot ∧ done.node.storage.snapMeta = some snapshot ∧
            done.node.storage.snapData = storage.snapData ∧
            done.node.storage.configBaseline = storage.configBaseline ∧
            storage.configBaseline = some done.node.configBaseline)) ∧
      ∀ owner later, Reaches setup (fun cluster action =>
          cluster.CompactsSafely action ∧ action ≠ .restart owner) cluster later →
        (cluster.nodes owner).commitIndex ≤ (later.nodes owner).commitIndex ∧
          (cluster.nodes owner).lastApplied ≤ (later.nodes owner).lastApplied) ∧
    ∀ Allowed cluster, Reachable setup Allowed cluster → ∀ owner peer index,
      (cluster.nodes owner).matchIndex.get? peer = some index →
        index = 0 ∨ ∃ bound, cluster.Confirms owner peer bound ∧ index ≤ bound := by
  refine ⟨fun cluster reached => ?_, fun Allowed cluster reached owner => ?_⟩
  · obtain ⟨history, explained⟩ := Explained.of_compacting_boot reached
    exact ⟨fun packet sent snapshot carries => explained.installs image sent carries,
      fun owner later => explained.keeps_advancing⟩
  · have blank : setup.boot.Marked := fun _ => marked_empty
    exact blank.reaches reached owner

/-- The counting machine's snapshot is one byte for each entry applied. -/
def countingImage (size : ℕ) (config : RaftConfig) : Imaging (electorate size config) where
  bytes log := List.replicate log.length 0
  Holds count log := count = log.length
  blank _ := rfl
  apply count log entry held := by
    rw [List.length_append, ← held]
    rfl
  snapshot count log held := congrArg (List.replicate · 0) held
  restore _ log := List.length_replicate

/-- Three voters that compact after every second entry and ship snapshots byte by byte: the third
one has missed everything, and the first of two chunks has reached it. -/
def firstChunk : List Action :=
  [.step (.timer 1 electionTimeout) 0 [], .step (.deliver 0) 0 [], .step (.deliver 2) 0 [],
    .step (.propose 1 (.bytes [])) 0 [], .step (.deliver 5) 0 [], .step (.deliver 7) 0 [],
    .step (.timer 1 heartbeat) 0 [], .step (.deliver 9) 0 [], .step (.deliver 10) 0 []]

def byteByByte : RaftConfig := { preVote := false, snapshotThreshold := 1, snapshotChunkBytes := 1 }

def afterFirstChunk : Cluster counting :=
  firstChunk.foldl (Cluster.act (electorate 3 byteByByte)) (electorate 3 byteByByte).boot

def lastChunk : RaftMsg :=
  .installSnapshot 1 1 2 1 1 [0] true (OrdSet.ofList [1, 2, 3]) ∅

theorem snapshot_transfer_lastChunk :
    ∃ done, (afterFirstChunk.nodes 3).step 0 [] (.message 1 lastChunk) = .ok done ∧
      ∃ storage ∈ afterFirstChunk.shipped 1, storage.snapMeta = some ⟨2, 1⟩ ∧
        done.node.storage.snapMeta = some ⟨2, 1⟩ ∧ done.node.storage.snapData = storage.snapData ∧
        done.node.storage.configBaseline = storage.configBaseline := by
  obtain ⟨done, result, installs⟩ := ((snapshot_transfer _ (countingImage 3 byteByByte)).1
    afterFirstChunk (Reaches.refl.of_allows (by decide +kernel))).1 ⟨1, 3, lastChunk⟩
    (by decide +kernel) ⟨2, 1⟩ rfl 0 []
  have saved : ⟨.saveSnapshot ⟨2, 1⟩ [0, 0], 0, []⟩ ∈
      ((afterFirstChunk.nodes 3).step 0 [] (.message 1 lastChunk)).ctx.writes := by
    decide +kernel
  rw [result] at saved
  obtain ⟨storage, held, shipped, index, data, members, -⟩ := installs ⟨_, saved, _, _, rfl⟩
  exact ⟨done, result, storage, held, shipped, index, data, members⟩

/-- A restart takes a node's commit index back to its snapshot. -/
theorem commitIndex_falls_at_restart : ∃ cluster : Cluster counting,
    Nonempty (Imaging (electorate 3 { preVote := false })) ∧
    Reachable (electorate 3 { preVote := false }) Cluster.CompactsSafely cluster ∧
    (cluster.nodes 1).commitIndex = 1 ∧
    ((cluster.act (electorate 3 { preVote := false }) (.restart 1)).nodes 1).commitIndex = 0 :=
  ⟨afterFirstCommit, ⟨countingImage 3 _⟩, Reaches.refl.of_allows (by decide +kernel),
    by decide +kernel, by decide +kernel⟩

end IronCache.Raft
