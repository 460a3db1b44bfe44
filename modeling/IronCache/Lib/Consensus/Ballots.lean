import IronCache.Lib.Consensus.State

/-!
# Ballots

A term has at most one winner as long as no ballot is ever changed.
-/

namespace IronCache.Consensus

variable {N : Type u}

abbrev Ballots (N : Type u) := N → ℕ → Option N

namespace Ballots

def Keeps (before after : Ballots N) : Prop :=
  ∀ voter term candidate, before voter term = some candidate → after voter term = some candidate

theorem Keeps.refl (ballots : Ballots N) : ballots.Keeps ballots := fun _ _ _ cast => cast

variable {before after ballots : Ballots N}

theorem Keeps.trans (first : before.Keeps between) (second : between.Keeps after) :
    before.Keeps after :=
  fun voter term candidate cast => second voter term candidate (first voter term candidate cast)

variable [DecidableEq N]

/-- A voter that has not voted for anyone else casts its ballot. -/
theorem keeps_record (free : ∀ other, ballots voter term = some other → other = candidate) :
    ballots.Keeps (record ballots voter term (some candidate)) := by
  intro other otherTerm choice cast
  rw [record_apply]
  split_ifs with same
  · rw [free choice (same.1 ▸ same.2 ▸ cast)]
  · exact cast

/-- A candidate with the ballots of a majority of the voters. -/
def Wins (ballots : Ballots N) (voters : Finset N) (term : ℕ) (candidate : N) : Prop :=
  ∃ quorum, IsMajority voters quorum ∧ ∀ voter ∈ quorum, ballots voter term = some candidate

theorem Wins.mono (wins : before.Wins voters term candidate) (keeps : before.Keeps after) :
    after.Wins voters term candidate := by
  obtain ⟨quorum, majority, cast⟩ := wins
  exact ⟨quorum, majority, fun voter member => keeps voter term candidate (cast voter member)⟩

/-- Two majorities have a voter in common, and it has one ballot. -/
theorem Wins.unique (first : ballots.Wins voters term candidate)
    (second : ballots.Wins voters term candidate') : candidate = candidate' := by
  obtain ⟨quorum, majority, cast⟩ := first
  obtain ⟨quorum', majority', cast'⟩ := second
  obtain ⟨voter, member, member'⟩ := majority.meet majority' (.refl voters)
  exact Option.some.inj ((cast voter member).symm.trans (cast' voter member'))

end Ballots

end IronCache.Consensus
