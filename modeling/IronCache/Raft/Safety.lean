import IronCache.Raft.Simulation.Runs

/-!
# Safety of a cluster without compaction

With membership changes, safety needs every leader to commit an entry of its own term first. The
engine does not ask for that.
-/

namespace IronCache.Raft

open Consensus (Protocol Inv Extends)
open Option

variable {machine : StateMachine}

/-- Everything a node has applied, one list for each of its lives, the current one first. -/
def Cluster.lives (cluster : Cluster machine) (owner : NodeId) : List (List LogEntry) :=
  cluster.applied owner :: cluster.retired owner

theorem Action.Static.changesSafely {cluster : Cluster machine} (static : Action.Static action)
    (addressed : target ∈ cluster.addressed action) (node : RaftNode machine) :
    ChangesSafely node target.2 := by
  obtain ⟨cause, caused, found⟩ := bind_eq_some_iff.mp addressed
  have static := static cause caused
  cases cause with
  | deliver position =>
    obtain ⟨packet, -, rfl⟩ := map_eq_some_iff.mp found
    trivial
  | timer node token =>
    obtain rfl := some.inj found
    trivial
  | propose node payload =>
    obtain rfl := some.inj found
    intro _ change
    rw [show payload.change? = none from static] at change
    exact absurd change (by simp)

theorem Chosen.unique {history : History} (inv : Inv (protocol seed) history)
    (first : Chosen history entry) (second : Chosen history entry')
    (same : entry.index = entry'.index) : entry = entry' := by
  obtain ⟨commit, member, found⟩ := first
  obtain ⟨commit', member', found'⟩ := second
  rw [← same] at found'
  rcases inv.commits_comparable member member' with ⟨tail, whole⟩ | ⟨tail, whole⟩
  · rw [← whole, List.getElem?_append_left (List.getElem?_eq_some_iff.mp found).1, found] at found'
    exact some.inj found'
  · rw [← whole, List.getElem?_append_left (List.getElem?_eq_some_iff.mp found').1, found'] at found
    exact (some.inj found).symm

theorem Ascends.indices (ascends : Ascends 0 entries) :
    entries.map (·.index) = List.range' 1 entries.length := by
  refine List.ext_getElem? fun position => ?_
  rw [List.getElem?_map]
  cases found : entries[position]? with
  | none =>
    have outside := List.getElem?_eq_none_iff.mp found
    simp [outside]
  | some entry =>
    have inside := (List.getElem?_eq_some_iff.mp found).1
    rw [List.getElem?_range' inside, map_some, ascends position entry found]
    congr 1
    omega

/-- State machine safety: with a static membership and no compaction, nodes never apply
different entries at one index, apply the indices from one on in order in each of their
lives, and never truncate what they hold committed. -/
theorem state_machine_safety (setup : Setup machine)
    (off : ∀ owner, (setup.config owner).snapshotThreshold = 0)
    (reached : Reachable setup (fun _ action => action.Static) cluster) :
    (∀ first second, ∀ entry ∈ (cluster.lives first).flatten,
      ∀ entry' ∈ (cluster.lives second).flatten, entry.index = entry'.index → entry = entry') ∧
    (∀ owner, ∀ life ∈ cluster.lives owner, life.map (·.index) = List.range' 1 life.length) ∧
    ∀ owner, ∀ write ∈ cluster.writes owner, ∀ index, write.op = .truncateFrom index →
      write.commitIndex < index := by
  have threshold : ∀ owner, (setup.config owner).snapshotThreshold ≠ 0 → False :=
    fun owner positive => positive (off owner)
  obtain ⟨history, explained, -⟩ := (Explained.boot setup False threshold).reaches threshold
    (fun history cluster action explained static => ⟨fun target addressed =>
      ⟨static.changesSafely addressed _, explained.appendsSafely id _ _⟩, False.elim⟩) reached
  refine ⟨fun first second entry applied entry' applied' same => ?_, fun owner life member => ?_,
    fun owner => (explained.recorded owner).kept id⟩
  · obtain ⟨life, member, inLife⟩ := List.mem_flatten.mp applied
    obtain ⟨life', member', inLife'⟩ := List.mem_flatten.mp applied'
    exact ((explained.recorded first).chosen life member entry inLife).unique explained.inv
      ((explained.recorded second).chosen life' member' entry' inLife') same
  · exact ((explained.recorded owner).ascends id life member).indices

/-- Three voters elect the first of them; its first entry is committed on two of them. -/
def firstCommit : List Action :=
  [.step (.timer 1 electionTimeout) 0 [], .step (.deliver 0) 1 [], .step (.deliver 2) 2 [],
    .step (.deliver 3) 3 [], .step (.deliver 5) 4 [], .step (.timer 1 heartbeat) 5 [],
    .step (.deliver 6) 6 []]

def afterFirstCommit : Cluster counting :=
  firstCommit.foldl (Cluster.act (electorate 3 { preVote := false })) (electorate 3 { preVote := false }).boot

theorem state_machine_safety_firstCommit :
    afterFirstCommit.lives 1 = [[⟨1, 1, .noop⟩]] ∧ afterFirstCommit.lives 2 = [[⟨1, 1, .noop⟩]] ∧
      ∀ entry ∈ (afterFirstCommit.lives 1).flatten, ∀ entry' ∈ (afterFirstCommit.lives 2).flatten,
        entry.index = entry'.index → entry = entry' := by
  refine ⟨by decide +kernel, by decide +kernel, ?_⟩
  exact (state_machine_safety (electorate 3 { preVote := false }) (fun _ => rfl)
    (Reaches.refl.of_allows (by decide +kernel))).1 1 2

/-- A membership change, if the action proposes one to a leader that takes it, comes after a
commit of the leader's own term. -/
def Cluster.ChangesSafely (cluster : Cluster machine) (action : Action) : Prop :=
  ∀ target ∈ cluster.addressed action, Raft.ChangesSafely (cluster.nodes target.1) target.2

instance : Decidable (Cluster.ChangesSafely cluster action) :=
  inferInstanceAs (Decidable (∀ target ∈ _, _))

namespace Explained

variable {setup : Setup machine} {history after : History} {cluster target : Cluster machine}

theorem entryAt (explained : Explained setup False history cluster) (owner : NodeId) (positive : 0 < index) :
    (cluster.nodes owner).storage.entryAt index = (history.log owner)[index - 1]? := by
  have node := explained.nodes owner
  have uncompacted : (cluster.nodes owner).storage.snapIndex = 0 := by
    by_contra compacted
    exact node.compacted (Nat.pos_of_ne_zero compacted)
  rcases Nat.lt_or_ge (history.log owner).length index with outside | inside
  · rw [node.log.entryAt_none (.inr outside), List.getElem?_eq_none (by omega)]
  · exact node.log.entryAt (uncompacted ▸ positive) inside

theorem leader_election (explained : Explained setup compacts history cluster)
    (leader : (cluster.nodes owner).role = .leader) : ∃ election ∈ history.elections, election.node = owner ∧
      election.term = (cluster.nodes owner).storage.currentTerm ∧
      election.log <+: history.log owner := by
  have node := explained.nodes owner
  obtain ⟨onBranch, election, won, same, term⟩ :=
    explained.inv.leads owner (node.role.trans (by rw [leader]; rfl))
  refine ⟨election, won, same, term.trans node.term.symm, ?_⟩
  rw [onBranch, ← term]
  exact (explained.inv.won election won).base

/-- Leaders of one term are one node, at whatever times they lead. -/
private theorem one_leader (explained : Explained setup compacts history cluster)
    (explained' : Explained setup compacts after target) (grows : Extends history after)
    (leader : (cluster.nodes first).role = .leader) (leader' : (target.nodes second).role = .leader)
    (same : (cluster.nodes first).storage.currentTerm =
      (target.nodes second).storage.currentTerm) : first = second := by
  obtain ⟨election, won, owns, term, -⟩ := explained.leader_election leader
  obtain ⟨election', won', owns', term', -⟩ := explained'.leader_election leader'
  have unique := explained'.inv.unique _ (grows.elections won) _ won' (term.trans (same.trans term'.symm))
  rw [← owns, ← owns', unique]

/-- What a node holds committed is in the log of every leader of a later term. The two are
seen at two times of one run, in either order: `history` knows of the commit, `history'` of
the leader, and `after` of both. -/
private theorem leader_holds (explained : Explained setup False history cluster)
    (explained' : Explained setup False history' target) (grows : Extends history after)
    (grows' : Extends history' after) (inv : Inv (protocol setup.voters) after)
    (within : index ≤ (cluster.nodes owner).commitIndex)
    (held : (cluster.nodes owner).storage.entryAt index = some entry)
    (leads : (target.nodes leader).role = .leader) (later : (cluster.nodes owner).storage.currentTerm <
      (target.nodes leader).storage.currentTerm) :
    (target.nodes leader).storage.entryAt index = some entry := by
  have positive : 0 < index := Nat.pos_of_ne_zero fun zero => by
    rw [zero] at held
    exact absurd held (by simp [MemStorage.entryAt])
  rw [explained.entryAt owner positive] at held
  rw [explained'.entryAt leader positive]
  have node := explained.nodes owner
  have inPrefix : ((history.log owner).take (cluster.nodes owner).commitIndex)[index - 1]? =
      some entry := by
    rw [List.getElem?_take, if_pos (by omega), held]
  obtain ⟨election, won, -, term, base⟩ := explained'.leader_election leads
  rcases node.committed with empty | ⟨commit, member, early, inCommit⟩
  · rw [empty] at inPrefix
    exact absurd inPrefix (by simp)
  have carried := inv.complete _ (grows.commits member) _ (grows'.elections won)
    (early.trans_lt (by rw [term, ← node.term]; exact later))
  obtain ⟨tail, whole⟩ := (inCommit.trans carried).trans base
  rw [← whole, List.getElem?_append_left (List.getElem?_eq_some_iff.mp inPrefix).1, inPrefix]

end Explained

/-- Without compaction, and if every membership change follows a commit of its leader's own
term: at most one node ever leads a term, and what a node holds committed is in the log of
every leader of a later term, whichever of the two is seen first. -/
theorem membership_safety (setup : Setup machine) (off : ∀ owner, (setup.config owner).snapshotThreshold = 0)
    (reached : Reachable setup Cluster.ChangesSafely cluster)
    (later : Reaches setup Cluster.ChangesSafely cluster target) :
    (∀ first second, (cluster.nodes first).role = .leader → (target.nodes second).role = .leader →
      (cluster.nodes first).storage.currentTerm = (target.nodes second).storage.currentTerm →
      first = second) ∧
    (∀ owner leader index entry, index ≤ (cluster.nodes owner).commitIndex →
      (cluster.nodes owner).storage.entryAt index = some entry → (target.nodes leader).role = .leader →
      (cluster.nodes owner).storage.currentTerm < (target.nodes leader).storage.currentTerm →
      (target.nodes leader).storage.entryAt index = some entry) ∧
    ∀ owner leader index entry, index ≤ (target.nodes owner).commitIndex →
      (target.nodes owner).storage.entryAt index = some entry → (cluster.nodes leader).role = .leader →
      (target.nodes owner).storage.currentTerm < (cluster.nodes leader).storage.currentTerm →
      (cluster.nodes leader).storage.entryAt index = some entry := by
  have threshold : ∀ owner, (setup.config owner).snapshotThreshold ≠ 0 → False :=
    fun owner positive => positive (off owner)
  have safe : ∀ history cluster action, Explained setup False history cluster →
      cluster.ChangesSafely action → ActsSafely False cluster action :=
    fun history cluster action explained safe => ⟨fun target addressed =>
      ⟨safe target addressed, explained.appendsSafely id _ _⟩, False.elim⟩
  obtain ⟨history, explained, -⟩ :=
    (Explained.boot setup False threshold).reaches threshold safe reached
  obtain ⟨after, explained', grows⟩ := explained.reaches threshold safe later
  refine ⟨fun first second => explained.one_leader explained' grows,
    fun owner leader index entry => ?_, fun owner leader index entry => ?_⟩
  · exact explained.leader_holds explained' grows (.refl after) explained'.inv
  · exact explained'.leader_holds explained (.refl after) grows explained'.inv

/-- The first leader of the three voters adds a fourth once its first entry is committed. -/
def afterFirstChange : Cluster counting :=
  afterFirstCommit.act (electorate 3 { preVote := false })
    (.step (.propose 1 (.configChange (.addVoter 4))) 7 [])

theorem membership_safety_firstCommit :
    (afterFirstCommit.nodes 1).role = .leader ∧ (afterFirstChange.nodes 1).role = .leader ∧
      4 ∈ (afterFirstChange.nodes 1).voters ∧
      ∀ second, (afterFirstChange.nodes second).role = .leader →
        (afterFirstCommit.nodes 1).storage.currentTerm =
          (afterFirstChange.nodes second).storage.currentTerm →
        1 = second := by
  have reached : Reachable (electorate 3 { preVote := false }) Cluster.ChangesSafely
      afterFirstCommit := Reaches.refl.of_allows (by decide +kernel)
  refine ⟨by decide +kernel, by decide +kernel, by decide +kernel, fun second => ?_⟩
  exact (membership_safety _ (fun _ => rfl) reached (.act .refl (by decide +kernel))).1 1 second
    (by decide +kernel)

/-- Two leaders of four voters each start a membership change before they have committed
anything: the first adds the fifth node and is cut off, the second removes the first node. -/
def dividedChanges : List Action :=
  [ -- Term 1: nodes 2 and 3 elect node 1, which proposes to add node 5.
    .step (.timer 1 electionTimeout) 0 [], .step (.deliver 0) 0 [], .step (.deliver 1) 0 [],
    .step (.deliver 3) 0 [], .step (.deliver 4) 0 [], .step (.deliver 5) 0 [],
    .step (.deliver 6) 0 [], .step (.deliver 8) 0 [], .step (.deliver 9) 0 [],
    .step (.propose 1 (.configChange (.addVoter 5))) 0 [],
    -- Term 2: nodes 3 and 4 elect node 2, which proposes to remove node 1. Nodes 2 and 3 are a
    -- majority of the three voters left and commit the change.
    .step (.timer 2 electionTimeout) 1000 [], .step (.deliver 18) 1000 [],
    .step (.deliver 19) 1000 [], .step (.deliver 20) 1000 [], .step (.deliver 21) 1000 [],
    .step (.deliver 23) 1000 [], .step (.deliver 24) 1000 [], .step (.deliver 25) 1000 [],
    .step (.deliver 26) 1000 [], .step (.propose 2 (.configChange (.removeVoter 1))) 1000 [],
    .step (.deliver 30) 1000 [], .step (.deliver 32) 1000 [],
    -- Term 3: node 2 has lost contact, steps down and is elected again by node 3.
    .step (.timer 2 heartbeat) 2000 [], .step (.timer 2 electionTimeout) 2000 [],
    .step (.deliver 33) 2000 [], .step (.deliver 35) 2000 [], .step (.deliver 36) 2000 [],
    .step (.deliver 38) 2000 [],
    -- Term 3 again: node 1 learns of term 2 and is elected by nodes 4 and 5, a majority of its
    -- five voters.
    .step (.deliver 22) 2000 [], .step (.timer 1 electionTimeout) 3000 [],
    .step (.deliver 44) 3000 [], .step (.deliver 45) 3000 [], .step (.deliver 46) 3000 [],
    .step (.deliver 47) 3000 [], .step (.deliver 50) 3000 [], .step (.deliver 51) 3000 [],
    .step (.deliver 52) 3000 [], .step (.deliver 53) 3000 []]

/-- Membership changes as the engine accepts them let one term have two leaders, of which the
first lacks an entry that the second has committed. -/
theorem two_leaders_after_dividedChanges : ∃ cluster, Reachable (electorate 4 {}) (fun _ _ => True) cluster ∧
      (cluster.nodes 1).role = .leader ∧ (cluster.nodes 2).role = .leader ∧
      (cluster.nodes 1).storage.currentTerm = 3 ∧ (cluster.nodes 2).storage.currentTerm = 3 ∧
      (cluster.nodes 2).commitIndex = 2 ∧
      (cluster.nodes 2).storage.entryAt 2 = some ⟨2, 2, .configChange (.removeVoter 1)⟩ ∧
      (cluster.nodes 1).storage.entryAt 2 = some ⟨1, 2, .configChange (.addVoter 5)⟩ := by
  refine ⟨dividedChanges.foldl (Cluster.act _) _, Reaches.refl.of_allows (by decide +kernel), ?_⟩
  decide +kernel

end IronCache.Raft
