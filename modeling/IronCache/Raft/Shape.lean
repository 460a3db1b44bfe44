import IronCache.Raft.Engine
import IronCache.Raft.LogView

/-!
# What parts of a handler can touch

What the first functions of a handler leave of a context.
-/

namespace IronCache.Raft

variable {machine : StateMachine}

namespace Ctx

section

variable (ctx : Ctx machine)
include ctx

@[simp]
theorem cancelHeartbeatIf_node : (ctx.cancelHeartbeatIf wasLeader).node = ctx.node := by
  cases wasLeader <;> rfl

@[simp]
theorem armElectionTimer_node : ctx.armElectionTimer.node = ctx.node := rfl

theorem observeTerm_currentTerm (term : ℕ) :
    (ctx.observeTerm term).1.node.storage.currentTerm = max ctx.node.storage.currentTerm term := by
  unfold observeTerm
  split_ifs with later
  · rw [armElectionTimer_node, cancelHeartbeatIf_node, max_eq_right later.le]
    rfl
  · exact (max_eq_left (not_lt.mp later)).symm

theorem observeTerm_snapMeta (term : ℕ) :
    (ctx.observeTerm term).1.node.storage.snapMeta = ctx.node.storage.snapMeta := by
  unfold observeTerm
  split_ifs with later
  · rw [armElectionTimer_node, cancelHeartbeatIf_node]
    rfl
  · rfl

theorem followLeader_role (now leader : ℕ) : (ctx.followLeader now leader).node.role = .follower := by
  unfold followLeader
  dsimp only
  split_ifs with follower
  · exact follower
  · rfl

theorem followLeader_storage (now leader : ℕ) :
    (ctx.followLeader now leader).node.storage = ctx.node.storage := by
  unfold followLeader stepDownToFollower
  dsimp only
  split_ifs with follower
  · rfl
  · rw [armElectionTimer_node, cancelHeartbeatIf_node]

/-- Dropping a conflicting log changes nothing but the log and the record of the write. -/
theorem dropConflicting_eq (index term : ℕ) : ∃ storage writes, ctx.dropConflicting index term =
        { ctx with
          node.storage := storage
          writes := writes } ∧
      storage.currentTerm = ctx.node.storage.currentTerm ∧
      storage.votedFor = ctx.node.storage.votedFor := by
  unfold dropConflicting
  split_ifs with same
  · exact ⟨_, _, rfl, rfl, rfl⟩
  obtain ⟨currentTerm, votedFor, -⟩ :=
    MemStorage.truncateFrom_fields ctx.node.storage ctx.node.storage.logStartIndex
  exact ⟨_, _, rfl, currentTerm, votedFor⟩

theorem observeTerm_of_le (current : term ≤ ctx.node.storage.currentTerm) :
    ctx.observeTerm term = (ctx, false) :=
  if_neg (not_lt.mpr current)

theorem observeTerm_of_lt (later : ctx.node.storage.currentTerm < term) :
    ctx.observeTerm term = ((ctx.observeTerm term).1, true) := by
  unfold observeTerm
  rw [if_pos later]

end

end Ctx

/-- What the leader's scan for a new commit index returns. -/
theorem RaftNode.highestCommittable_spec (node : RaftNode machine) (last : ℕ) :
    node.highestCommittable last = node.commitIndex ∨
      node.commitIndex < node.highestCommittable last ∧ node.highestCommittable last ≤ last ∧
        node.storage.termAt (node.highestCommittable last) = node.storage.currentTerm ∧
        node.majority ≤ node.replicatedCount (node.highestCommittable last) := by
  induction last with
  | zero => exact .inl rfl
  | succ last ih =>
    unfold highestCommittable
    split_ifs with low holds
    · exact .inl rfl
    · exact .inr ⟨by omega, le_rfl, holds⟩
    · rcases ih with same | ⟨above, within, rest⟩
      · exact .inl same
      · exact .inr ⟨above, by omega, rest⟩

end IronCache.Raft
