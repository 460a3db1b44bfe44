import IronCache.Lib.Consensus.Ballots
import IronCache.Raft.Moves

/-!
# Election safety

With a static membership a term never has two leaders, wherever in a step a node crashes.
-/

namespace IronCache.Raft

open Consensus (Ballots record record_apply record_self)
open MemStorage
open Function
open Option

variable {machine : StateMachine}

/-- The memberships that occur when nobody changes them: the one every node is built with, and
the empty one that a leader ships with a snapshot whose membership it lost in a crash. -/
def Fixed (seed : NodeSet) (members : NodeSet × NodeSet) : Prop :=
  members = (seed, ∅) ∨ members = (∅, ∅)

/-- No entry changes the membership. -/
def Plain (entries : List LogEntry) : Prop := ∀ entry ∈ entries, entry.payload.change? = none

theorem Plain.of_subset (plain : Plain entries) (within : part ⊆ entries) : Plain part :=
  fun entry member => plain entry (within member)

theorem Plain.append (first : Plain entries) (second : Plain more) : Plain (entries ++ more) :=
  fun entry member => (List.mem_append.mp member).elim (first entry) (second entry)

private theorem applyEntryDelta_of_plain (members : NodeSet × NodeSet)
    (plain : entry.payload.change? = none) : applyEntryDelta members entry = members := by
  unfold applyEntryDelta
  cases payload : entry.payload <;> simp_all [EntryPayload.change?]

variable {storage : MemStorage} {node : RaftNode machine}

theorem MemStorage.entryAt_mem (found : storage.entryAt index = some entry) : entry ∈ storage.log := by
  unfold entryAt at found
  split_ifs at found
  obtain ⟨position, -, held⟩ := bind_eq_some_iff.mp found
  exact List.mem_of_getElem? held

theorem MemStorage.configThrough_of_plain (plain : Plain storage.log) :
    storage.configThrough baseline last = baseline := by
  unfold configThrough
  generalize List.range' _ _ = indices
  induction indices with
  | nil => rfl
  | cons index rest ih =>
    rw [List.foldl_cons]
    cases found : storage.entryAt index with
    | none => exact ih
    | some entry =>
      rw [elim_some, applyEntryDelta_of_plain _ (plain entry (entryAt_mem found))]
      exact ih

/-- A storage that backs a node's ballots: it has not fallen behind a term, and it still holds
the vote of its current one. -/
structure Backs (seed : NodeSet) (ballots : Ballots NodeId) (owner : NodeId) (bound : ℕ)
    (storage : MemStorage) : Prop where
  plain : Plain storage.log
  baseline : ∀ members, storage.configBaseline = some members → Fixed seed members
  reached : bound ≤ storage.currentTerm
  past : ∀ term candidate, ballots owner term = some candidate → term ≤ storage.currentTerm
  present : ∀ candidate, ballots owner storage.currentTerm = some candidate →
    storage.votedFor = some candidate

namespace Backs

variable {seed : NodeSet} {ballots : Ballots NodeId} {owner : NodeId} {bound : ℕ} {storage : MemStorage}

section

variable (backs : Backs seed ballots owner bound storage)
include backs

theorem setCurrentTerm (later : storage.currentTerm < term) :
    Backs seed ballots owner bound (storage.setCurrentTerm term) :=
  { backs with
    reached := backs.reached.trans later.le
    past := fun other candidate cast => (backs.past other candidate cast).trans later.le
    present := fun candidate cast => absurd (backs.past term candidate cast) (by omega) }

theorem setVotedFor
    (agrees : ∀ candidate, ballots owner storage.currentTerm = some candidate → vote = some candidate) :
    Backs seed ballots owner bound (storage.setVotedFor vote) :=
  { backs with present := agrees }

theorem enterTerm (later : storage.currentTerm < term) (vote : Option NodeId) :
    Backs seed ballots owner bound ((storage.setCurrentTerm term).setVotedFor vote) :=
  (backs.setCurrentTerm later).setVotedFor fun candidate cast =>
    absurd (backs.past term candidate cast) (by omega)

theorem rewrite (vote : (after.currentTerm, after.votedFor) = (storage.currentTerm, storage.votedFor))
    (baseline : after.configBaseline = storage.configBaseline) (plain : Plain after.log) :
    Backs seed ballots owner bound after := by
  obtain ⟨term, voted⟩ := Prod.mk.inj vote
  exact
    { plain
      baseline := baseline ▸ backs.baseline
      reached := term ▸ backs.reached
      past := term ▸ backs.past
      present := fun candidate cast => voted ▸ backs.present candidate (term ▸ cast) }

theorem truncateFrom (index : ℕ) : Backs seed ballots owner bound (storage.truncateFrom index) := by
  unfold MemStorage.truncateFrom
  extract_lets keep
  split
  · exact backs.rewrite rfl rfl (backs.plain.of_subset (List.take_subset _ _))
  · exact backs

theorem compactTo (index : ℕ) : Backs seed ballots owner bound (storage.compactTo index) := by
  unfold MemStorage.compactTo
  split
  · exact backs
  · exact backs.rewrite rfl rfl (backs.plain.of_subset (List.drop_subset _ _))

theorem saveConfigBaseline (fixed : Fixed seed (voters, learners)) :
    Backs seed ballots owner bound (storage.saveConfigBaseline voters learners) :=
  { backs with baseline := fun _ same => some.inj same ▸ fixed }

theorem mono (keeps : floor.Keeps ballots) : Backs seed floor owner bound storage :=
  { backs with
    past := fun term candidate cast => backs.past term candidate (keeps _ _ _ cast)
    present := fun candidate cast => backs.present candidate (keeps _ _ _ cast) }

end

end Backs

/-- What a message tells about its sender's ballots and about the membership. -/
def Honest (seed : NodeSet) (ballots : Ballots NodeId) (source dest : NodeId) : RaftMsg → Prop
  | .requestVoteResp term voteGranted => voteGranted = true → ballots source term = some dest
  | .appendEntries _ _ _ _ entries _ => Plain entries
  | .installSnapshot _ _ _ _ _ _ _ voters learners => Fixed seed (voters, learners)
  | .propose _ => False
  | _ => True

theorem Honest.mono (honest : Honest seed ballots source dest msg) (keeps : ballots.Keeps after) :
    Honest seed after source dest msg := by
  cases msg with
  | requestVoteResp term voteGranted => exact fun granted => keeps _ _ _ (honest granted)
  | _ => exact honest

/-- What a node may be given, as far as elections are concerned. -/
def Input.Honest (seed : NodeSet) (ballots : Ballots NodeId) (owner : NodeId) : Input → Prop
  | .message source msg => Raft.Honest seed ballots source owner msg
  | .timer _ => True
  | .propose payload => payload.change? = none

/-- The writes of a step account for its storage. Wherever they are cut short the storage backs
the ballots the step began with, and the further they get the higher its term. -/
structure Recovers (seed : NodeSet) (floor : Ballots NodeId) (before : MemStorage)
    (owner : NodeId) (writes : List Write) (storage : MemStorage) : Prop where
  written : before.writeAll (writes.map (·.op)) = storage
  backs : ∀ count, Backs seed floor owner before.currentTerm
    (before.writeAll ((writes.take count).map (·.op)))
  climbs : ∀ count, (before.writeAll ((writes.take count).map (·.op))).currentTerm ≤
    (before.writeAll ((writes.take (count + 1)).map (·.op))).currentTerm

theorem Recovers.write {core : Core}
    (recovers : Recovers seed floor before owner core.writes core.storage) (op : StorageOp)
    (backs : Backs seed floor owner before.currentTerm (core.storage.write op))
    (climbs : core.storage.currentTerm ≤ (core.storage.write op).currentTerm) :
    Recovers seed floor before owner (core.write op).writes (core.write op).storage := by
  have written : before.writeAll ((core.write op).writes.map (·.op)) = core.storage.write op := by
    rw [← recovers.written, Core.write, List.map_append, writeAll_append]
    rfl
  have earlier : ∀ count ≤ core.writes.length, (core.write op).writes.take count =
      core.writes.take count := fun count within => List.take_append_of_le_length within
  have whole : ∀ count, core.writes.length < count → (core.write op).writes.take count =
      (core.write op).writes := fun count beyond =>
    List.take_of_length_le (by simpa [Core.write, Nat.succ_le_iff] using beyond)
  refine ⟨written, fun count => ?_, fun count => ?_⟩
  · rcases Nat.lt_or_ge core.writes.length count with beyond | within
    · rw [whole count beyond, written]
      exact backs
    · rw [earlier count within]
      exact recovers.backs count
  · rcases Nat.lt_trichotomy count core.writes.length with within | rfl | beyond
    · rw [earlier count within.le, earlier (count + 1) within]
      exact recovers.climbs count
    · rw [earlier _ le_rfl, whole _ (Nat.lt_succ_self _), written, List.take_length, recovers.written]
      exact climbs
    · rw [whole count beyond, whole (count + 1) (by omega)]

/-- A step in progress that began with some ballots and a storage: the ballots have grown by the
node's own only, and everything the node knows, has sent or would find after a crash agrees with
them. -/
structure Core.Fair (seed : NodeSet) (floor : Ballots NodeId) (before : MemStorage)
    (owner : NodeId) (ballots : Ballots NodeId) (core : Core) : Prop where
  named : core.id = owner
  grows : floor.Keeps ballots
  others : ∀ voter, voter ≠ owner → ballots voter = floor voter
  backs : Backs seed ballots owner before.currentTerm core.storage
  members : Fixed seed (core.voters, core.learners)
  baseline : Fixed seed core.configBaseline
  buffer : ∀ held, core.snapshotRx = some held → Fixed seed (held.voters, held.learners)
  tally : core.role ≠ .follower → ∀ voter ∈ core.votes, ballots voter core.storage.currentTerm = some owner
  elected : core.role = .leader → IsMajority seed.toFinset core.votes.toFinset
  sends : ∀ sent ∈ core.sends, Honest seed ballots owner sent.1 sent.2
  recovers : Recovers seed floor before owner core.writes core.storage

namespace Core.Fair

variable {seed : NodeSet} {floor ballots : Ballots NodeId} {before : MemStorage} {owner : NodeId}
  {core : Core} {input : Input}

section

variable (fair : core.Fair seed floor before owner ballots)
include fair

theorem write (op : StorageOp) (backs : Backs seed ballots owner before.currentTerm (core.storage.write op))
    (term : (core.storage.write op).currentTerm = core.storage.currentTerm) :
    (core.write op).Fair seed floor before owner ballots :=
  { fair with
    backs
    tally := fun role voter member => by
      rw [show (core.write op).storage.currentTerm = _ from term]
      exact fair.tally role voter member
    recovers := fair.recovers.write op (backs.mono fair.grows) term.ge }

theorem enterTerm (later : core.storage.currentTerm < term) (vote : Option NodeId) :
    { (core.write (.setCurrentTerm term)).write (.setVotedFor vote) with
      role := .follower
      votes := ∅ }.Fair seed floor before owner ballots :=
  { fair with
    backs := fair.backs.enterTerm later vote
    tally := fun role => absurd rfl role
    elected := nofun
    recovers := (fair.recovers.write (.setCurrentTerm term)
      ((fair.backs.setCurrentTerm later).mono fair.grows) later.le).write (.setVotedFor vote)
      ((fair.backs.enterTerm later vote).mono fair.grows) le_rfl }

theorem cast (voted : core.storage.votedFor = some candidate) : core.Fair seed floor before owner
      (record ballots owner core.storage.currentTerm (some candidate)) := by
  have keeps : ballots.Keeps (record ballots owner core.storage.currentTerm (some candidate)) :=
    Ballots.keeps_record fun other cast =>
      some.inj ((fair.backs.present other cast).symm.trans voted)
  exact
    { fair with
      grows := fair.grows.trans keeps
      others := fun voter different => by
        rw [← fair.others voter different]
        exact update_of_ne different _ _
      backs :=
        { fair.backs with
          past := fun term other cast => by
            rw [record_apply] at cast
            split_ifs at cast with same
            · exact same.2.le
            · exact fair.backs.past term other cast
          present := fun other cast => by rw [voted, ← cast, record_self] }
      tally := fun role voter member => keeps _ _ _ (fair.tally role voter member)
      sends := fun sent member => (fair.sends sent member).mono keeps }

theorem send (honest : Honest seed ballots owner dest msg) :
    { core with sends := core.sends ++ [(dest, msg)] }.Fair seed floor before owner ballots :=
  { fair with
    sends := fun sent member => by
      rcases List.mem_append.mp member with earlier | now
      · exact fair.sends sent earlier
      · obtain rfl := List.mem_singleton.mp now
        exact honest }

private theorem recalls (honest : input.Honest seed floor owner) (recalled : core.Recalls input sets) :
    Fixed seed sets := by
  rcases recalled with ⟨source, term, leader, index, snapTerm, offset, data, done, rfl⟩ |
    ⟨held, buffered, rfl⟩
  · exact honest
  · exact fair.buffer held buffered

private theorem membersThrough (last : ℕ) : core.membersThrough last = core.configBaseline :=
  configThrough_of_plain fair.backs.plain

/-- A majority counted over a fixed membership is one of the voters all nodes were built with:
nothing is a majority of no voters. -/
theorem majority (counted : core.voters.size / 2 + 1 ≤ (core.votes.filter (· ∈ core.voters)).size) :
    IsMajority seed.toFinset core.votes.toFinset := by
  have counted := OrdSet.isMajority_of_filter counted
  rcases fair.members with same | same <;> obtain ⟨voters, -⟩ := Prod.mk.inj same
  · exact voters ▸ counted
  · rw [voters] at counted
    exact absurd counted (by simp [IsMajority, show (∅ : NodeSet).toFinset = ∅ from rfl])

/-- One move keeps the invariant; only a granted vote and a campaign cast a ballot. -/
theorem move (honest : input.Honest seed floor owner) (move : Move input core after) :
    ∃ ballots, after.Fair seed floor before owner ballots := by
  cases move with
  | send dest msg reason =>
    cases msg with
    | requestVoteResp term voteGranted =>
      cases voteGranted with
      | false => exact ⟨_, fair.send nofun⟩
      | true =>
        obtain ⟨rfl, voted⟩ := reason rfl
        exact ⟨_, (fair.cast voted).send fun _ => record_self _ _ _ _⟩
    | appendEntries term leader prevLogIndex prevLogTerm entries leaderCommit =>
      exact ⟨_, fair.send (fair.backs.plain.of_subset reason)⟩
    | installSnapshot term leader index snapTerm offset data done voters learners =>
      refine ⟨_, fair.send (show Fixed seed (voters, learners) from reason ▸ ?_)⟩
      cases held : core.storage.configBaseline with
      | none => exact .inr rfl
      | some members => exact fair.backs.baseline members held
    | propose payload => exact reason.elim
    | _ => exact ⟨_, fair.send trivial⟩
  | observe term later => exact ⟨_, { fair.enterTerm later none with }⟩
  | stepDown => exact ⟨_, { fair with tally := fun role => absurd rfl role, elected := nofun }⟩
  | campaign =>
    have entered := (fair.enterTerm (Nat.lt_succ_self _) (some core.id)).cast rfl
    refine ⟨_, { entered with tally := fun _ voter member => ?_, elected := nofun }⟩
    obtain rfl : voter = core.id := by simpa using member
    rw [← fair.named]
    exact record_self _ _ _ _
  | tally voter candidate granted =>
    refine ⟨ballots, { fair with tally := fun role other member => ?_, elected := ?_ }⟩
    · rcases OrdSet.mem_insert.mp member with rfl | earlier
      · subst granted
        exact fair.grows _ _ _ (honest rfl)
      · exact fair.tally role other earlier
    · exact fun leader => absurd (candidate.symm.trans leader) (by decide)
  | lead marks candidate counted fresh =>
    exact ⟨ballots, { fair with
      tally := fun _ => fair.tally (by rw [candidate]; nofun)
      elected := fun _ => fair.majority counted }⟩
  | grant candidate free =>
    refine ⟨ballots, fair.write _ (fair.backs.setVotedFor fun other cast => ?_) rfl⟩
    rcases free with none | same
    · exact absurd (none.symm.trans (fair.backs.present other cast)) nofun
    · exact same.symm.trans (fair.backs.present other cast)
  | append payload origin =>
    have static : payload.change? = none := by
      rcases origin with rfl | rfl | ⟨source, rfl⟩
      · rfl
      · exact honest
      · exact False.elim honest
    have plain : Plain (core.storage.log ++
        [⟨core.storage.currentTerm, core.storage.lastLogIndex + 1, payload⟩]) :=
      fair.backs.plain.append (by simpa [Plain] using static)
    exact ⟨ballots, fair.write _ (fair.backs.rewrite rfl rfl plain) rfl⟩
  | track marks fresh => exact ⟨ballots, { fair with }⟩
  | note peer index acked => exact ⟨ballots, { fair with }⟩
  | truncate index =>
    exact ⟨ballots, fair.write _ (fair.backs.truncateFrom index) (truncateFrom_fields _ _).1⟩
  | extend entries carried =>
    have plain : Plain entries := fun entry member => by
      obtain ⟨source, term, leader, prev, prevTerm, sent, commit, rfl, among⟩ :=
        carried entry member
      exact honest entry among
    exact ⟨ballots, fair.write _ (fair.backs.rewrite rfl rfl (fair.backs.plain.append plain)) rfl⟩
  | configure =>
    refine ⟨ballots, { fair with members := ?_ }⟩
    rw [fair.membersThrough]
    exact fair.baseline
  | commit index => exact ⟨ballots, { fair with }⟩
  | apply entry => exact ⟨ballots, { fair with }⟩
  | rebase members origin =>
    have fixed : Fixed seed members := by
      rcases origin with ⟨last, rfl⟩ | recalled
      · exact fair.membersThrough last ▸ fair.baseline
      · exact fair.recalls honest recalled
    have saved := fair.write (.saveConfigBaseline members.1 members.2)
      (fair.backs.saveConfigBaseline fixed) rfl
    exact ⟨ballots, { saved with baseline := fixed }⟩
  | save snapshot data =>
    exact ⟨ballots, fair.write _ (fair.backs.rewrite rfl rfl fair.backs.plain) rfl⟩
  | drop index =>
    exact ⟨ballots, fair.write _ (fair.backs.compactTo index) (compactTo_fields _ _).1⟩
  | buffer rx origin =>
    exact ⟨ballots, { fair with
      buffer := fun held same => fair.recalls honest (origin held same) }⟩

theorem moves (honest : input.Honest seed floor owner) (moves : Moves input core after) :
    ∃ ballots, after.Fair seed floor before owner ballots := by
  induction moves with
  | refl => exact ⟨ballots, fair⟩
  | tail _ step ih =>
    obtain ⟨_, fair⟩ := ih
    exact fair.move honest step

end

end Core.Fair

/-- A node between two steps. -/
abbrev RaftNode.Fair (seed : NodeSet) (ballots : Ballots NodeId) (owner : NodeId)
    (node : RaftNode machine) : Prop :=
  (Ctx.core { node, rng := [] }).Fair seed ballots node.storage owner ballots

theorem RaftNode.fair_of_rest (named : node.id = owner) (backs : Backs seed ballots owner bound node.storage)
    (members : Fixed seed (node.voters, node.learners)) (baseline : Fixed seed node.configBaseline)
    (buffer : ∀ held, node.snapshotRx = some held → Fixed seed (held.voters, held.learners))
    (tally : node.role ≠ .follower → ∀ voter ∈ node.votes, ballots voter node.storage.currentTerm = some owner)
    (elected : node.role = .leader → IsMajority seed.toFinset node.votes.toFinset) :
    node.Fair seed ballots owner where
  named := named
  grows := .refl _
  others := fun _ _ => rfl
  backs := { backs with reached := le_rfl }
  members := members
  baseline := baseline
  buffer := buffer
  tally := tally
  elected := elected
  sends := nofun
  recovers := ⟨rfl, fun count => by
    rw [show (Ctx.core { node, rng := [] }).writes = [] from rfl, List.take_nil]
    exact { backs with reached := le_rfl }, fun count => by
    rw [show (Ctx.core { node, rng := [] }).writes = [] from rfl, List.take_nil, List.take_nil]⟩

theorem Core.Fair.settle {done : Ctx machine}
    (fair : done.core.Fair seed floor before owner ballots) : done.node.Fair seed ballots owner :=
  RaftNode.fair_of_rest fair.named fair.backs fair.members fair.baseline fair.buffer fair.tally fair.elected

theorem RaftNode.Fair.mono (fair : node.Fair seed ballots owner) (keeps : ballots.Keeps after)
    (same : after owner = ballots owner) : node.Fair seed after owner := by
  have backs : Backs seed after owner node.storage.currentTerm node.storage :=
    { fair.backs with
      past := same ▸ fair.backs.past
      present := same ▸ fair.backs.present }
  exact RaftNode.fair_of_rest fair.named backs fair.members fair.baseline fair.buffer
    (fun role voter member => keeps _ _ _ (fair.tally role voter member)) fair.elected

theorem Backs.build (setup : Setup machine) (backs : Backs setup.voters ballots owner bound storage) :
    (setup.build owner storage).Fair setup.voters ballots owner := by
  have fixed : Fixed setup.voters (storage.loadConfigBaseline.getD (setup.voters, ∅)) := by
    cases held : storage.loadConfigBaseline with
    | none => exact .inl rfl
    | some members => exact backs.baseline members held
  have same : ((setup.build owner storage).voters, (setup.build owner storage).learners) =
      storage.loadConfigBaseline.getD (setup.voters, ∅) :=
    configThrough_of_plain backs.plain
  exact RaftNode.fair_of_rest rfl backs (same ▸ fixed) fixed (by nofun) (fun role => absurd rfl role)
    (by nofun)

/-- Everything in a cluster agrees with the ballots cast so far. -/
structure Cluster.Fair (setup : Setup machine) (ballots : Ballots NodeId)
    (cluster : Cluster machine) : Prop where
  nodes : ∀ owner, (cluster.nodes owner).Fair setup.voters ballots owner
  network : ∀ packet ∈ cluster.network, Honest setup.voters ballots packet.source packet.dest packet.msg

namespace Cluster.Fair

variable {setup : Setup machine} {cluster : Cluster machine} {ballots : Ballots NodeId}

theorem boot (setup : Setup machine) : setup.boot.Fair setup fun _ _ => none where
  nodes _ := Backs.build setup
    { plain := nofun, baseline := nofun, reached := Nat.zero_le 0, past := nofun, present := nofun }
  network := nofun

section

variable (fair : cluster.Fair setup ballots)
include fair

theorem honest (static : action.Static) (addressed : cluster.addressed action = some (owner, input)) :
    input.Honest setup.voters ballots owner := by
  obtain ⟨cause, caused, found⟩ := bind_eq_some_iff.mp addressed
  have static := static cause caused
  cases cause with
  | deliver position =>
    obtain ⟨packet, held, same⟩ := map_eq_some_iff.mp found
    obtain ⟨rfl, rfl⟩ := Prod.mk.inj same
    exact fair.network packet (List.mem_of_getElem? held)
  | timer node token =>
    obtain ⟨rfl, rfl⟩ := Prod.mk.inj (some.inj found)
    trivial
  | propose node payload =>
    obtain ⟨rfl, rfl⟩ := Prod.mk.inj (some.inj found)
    exact static

theorem step (honest : input.Honest setup.voters ballots owner) (now : ℕ) (rng : RaftRng) :
    ∃ after, ((cluster.nodes owner).step now rng input).ctx.core.Fair setup.voters ballots
      (cluster.nodes owner).storage owner after :=
  (fair.nodes owner).moves honest ((cluster.nodes owner).step_moves now rng input)

/-- What one action does: no ballot is taken back and no term given up. -/
def Advances (setup : Setup machine) (ballots : Ballots NodeId) (before after : Cluster machine) :
    Prop :=
  ∃ more : Ballots NodeId, ballots.Keeps more ∧ after.Fair setup more ∧
    ∀ owner, (before.nodes owner).storage.currentTerm ≤ (after.nodes owner).storage.currentTerm

theorem refl : Advances setup ballots cluster cluster :=
  ⟨ballots, .refl _, fair, fun _ => le_rfl⟩

theorem update {after : Cluster machine}
    (nodes : after.nodes = update cluster.nodes owner node) (keeps : ballots.Keeps more)
    (others : ∀ voter, voter ≠ owner → more voter = ballots voter) (rest : node.Fair setup.voters more owner)
    (reached : (cluster.nodes owner).storage.currentTerm ≤ node.storage.currentTerm)
    (network : ∀ packet ∈ after.network, Honest setup.voters more packet.source packet.dest packet.msg) :
    Advances setup ballots cluster after := by
  refine ⟨more, keeps, ⟨fun other => ?_, network⟩, fun other => ?_⟩ <;>
    rw [nodes] <;> rcases eq_or_ne other owner with rfl | different
  · rw [update_self]
    exact rest
  · rw [update_of_ne different]
    exact (fair.nodes other).mono keeps (others other different)
  · rw [update_self]
    exact reached
  · rw [update_of_ne different]

theorem rebuild (backs : Backs setup.voters ballots owner (cluster.nodes owner).storage.currentTerm storage)
    (entries : List LogEntry) (made : List Write) :
    Advances setup ballots cluster (cluster.rebuild setup owner storage entries made) :=
  fair.update rfl (.refl _) (fun _ _ => rfl) (backs.build setup) backs.reached fair.network

private theorem crashAfter (honest : input.Honest setup.voters ballots owner) (now : ℕ)
    (rng : RaftRng) (count : ℕ) :
    Advances setup ballots cluster (cluster.crashAfter setup owner
      ((cluster.nodes owner).step now rng input).ctx count) := by
  obtain ⟨_, stepped⟩ := fair.step honest now rng
  exact fair.rebuild (stepped.recovers.backs count) _ _

theorem release (honest : input.Honest setup.voters ballots owner)
    (result : (cluster.nodes owner).step now rng input = .ok done) :
    Advances setup ballots cluster (cluster.release owner done) := by
  obtain ⟨more, stepped⟩ := fair.step honest now rng
  rw [result] at stepped
  refine fair.update rfl stepped.grows stepped.others stepped.settle stepped.backs.reached
    fun packet member => ?_
  rcases List.mem_append.mp member with earlier | now
  · exact (fair.network packet earlier).mono stepped.grows
  · obtain ⟨sent, among, rfl⟩ := List.mem_map.mp now
    exact stepped.sends sent among

theorem act (static : action.Static) : Advances setup ballots cluster (cluster.act setup action) := by
  cases action with
  | restart owner => exact fair.rebuild (fair.nodes owner).backs [] []
  | step cause now rng =>
    cases found : cluster.target cause with
    | none =>
      rw [(act_of_none found now rng 0).1]
      exact fair.refl
    | some target =>
      have honest := fair.honest static found
      cases result : (cluster.nodes target.1).step now rng target.2 with
      | ok done =>
        rw [act_step_of_ok found result]
        exact fair.release honest result
      | error stopped =>
        rw [act_step_of_error found result]
        have crashed := fair.crashAfter honest now rng stopped.writes.length
        rwa [result] at crashed
  | crash cause now rng count =>
    cases found : cluster.target cause with
    | none =>
      rw [(act_of_none found now rng count).2]
      exact fair.refl
    | some target =>
      rw [Cluster.act_crash found]
      exact fair.crashAfter (fair.honest static found) now rng count

theorem reaches (reached : Reaches setup (fun _ action => action.Static) cluster after) :
    Advances setup ballots cluster after := by
  induction reached with
  | refl => exact fair.refl
  | act _ static ih =>
    obtain ⟨more, keeps, fair, terms⟩ := ih
    obtain ⟨most, keeps', fair', terms'⟩ := fair.act static
    exact ⟨most, keeps.trans keeps', fair', fun owner => (terms owner).trans (terms' owner)⟩

/-- A crash one write later leaves no smaller term. -/
theorem climbs (static : cause.Static) (now : ℕ) (rng : RaftRng) (count : ℕ) (owner : NodeId) :
    ((cluster.act setup (.crash cause now rng count)).nodes owner).storage.currentTerm ≤
      ((cluster.act setup (.crash cause now rng (count + 1))).nodes owner).storage.currentTerm := by
  cases found : cluster.target cause with
  | none =>
    rw [(act_of_none found now rng count).2, (act_of_none found now rng (count + 1)).2]
  | some target =>
    have static : (Action.crash cause now rng count).Static := by
      rintro _ ⟨⟩
      exact static
    obtain ⟨_, stepped⟩ := fair.step (fair.honest static found) now rng
    rw [Cluster.act_crash found, Cluster.act_crash found]
    unfold Cluster.crashAfter Cluster.rebuild
    dsimp only
    rcases eq_or_ne owner target.1 with rfl | different
    · rw [update_self, update_self]
      exact stepped.recovers.climbs count
    · rw [update_of_ne different, update_of_ne different]

private theorem wins (leader : (cluster.nodes owner).role = .leader) :
    ballots.Wins setup.voters.toFinset (cluster.nodes owner).storage.currentTerm owner :=
  ⟨_, (fair.nodes owner).elected leader,
    (fair.nodes owner).tally fun follower => absurd (leader.symm.trans follower) (by decide)⟩

end

end Cluster.Fair

/-- Election safety: with a static membership, in all of a run a term has at most one leader,
and no node's persisted term ever decreases, from one state to a later one or from one write of
a step to the next. -/
theorem election_safety (setup : Setup machine)
    (reached : Reachable setup (fun _ action => action.Static) cluster)
    (later : Reaches setup (fun _ action => action.Static) cluster cluster') :
    (∀ first second, (cluster.nodes first).role = .leader → (cluster'.nodes second).role = .leader →
      (cluster.nodes first).storage.currentTerm = (cluster'.nodes second).storage.currentTerm →
      first = second) ∧
    (∀ owner, (cluster.nodes owner).storage.currentTerm ≤ (cluster'.nodes owner).storage.currentTerm) ∧
    ∀ (cause : Cause) now rng count owner, cause.Static →
      ((cluster.act setup (.crash cause now rng count)).nodes owner).storage.currentTerm ≤
        ((cluster.act setup (.crash cause now rng (count + 1))).nodes owner).storage.currentTerm := by
  obtain ⟨ballots, -, fair, -⟩ := (Cluster.Fair.boot setup).reaches reached
  obtain ⟨more, keeps, fair', terms⟩ := fair.reaches later
  refine ⟨fun first second leader leader' same => ?_, terms,
    fun cause now rng count owner static => fair.climbs static now rng count owner⟩
  exact ((fair.wins leader).mono keeps).unique (same ▸ fair'.wins leader')

/-- Node one crashes between persisting its first candidacy's term and its vote, and wins the
term after it. -/
def halfVote : List Action :=
  [.crash (.timer 1 electionTimeout) 0 [] 1, .step (.timer 1 electionTimeout) 1 [],
    .step (.deliver 0) 2 [], .step (.deliver 2) 3 []]

def afterHalfVote : Cluster counting :=
  halfVote.foldl (Cluster.act (electorate 3 { preVote := false })) (electorate 3 { preVote := false }).boot

theorem afterHalfVote_reachable :
    Reachable (electorate 3 { preVote := false }) (fun _ action => action.Static) afterHalfVote :=
  Reaches.refl.of_allows (by decide +kernel)

theorem election_safety_halfVote :
    (afterHalfVote.nodes 1).role = .leader ∧ (afterHalfVote.nodes 1).storage.currentTerm = 2 ∧
      ∀ second, (afterHalfVote.nodes second).role = .leader →
        (afterHalfVote.nodes second).storage.currentTerm = 2 → 1 = second := by
  have leader : (afterHalfVote.nodes 1).role = .leader := by decide +kernel
  have term : (afterHalfVote.nodes 1).storage.currentTerm = 2 := by decide +kernel
  refine ⟨leader, term, fun second leader' term' => ?_⟩
  exact (election_safety _ afterHalfVote_reachable .refl).1 1 second leader leader' (term.trans term'.symm)

end IronCache.Raft
