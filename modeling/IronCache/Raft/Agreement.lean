import IronCache.Raft.Election
import IronCache.Raft.Transfer

/-!
# Agreement between nodes

What any two nodes of a cluster hold, at one time of a run or at two.
-/

namespace IronCache.Raft

open Consensus (Extends)
open List

variable {machine : StateMachine} {setup : Setup machine} {cluster target : Cluster machine}

/-- Two times of one run. Without compaction a crash may fall between any two writes; with it, a
crash falls between two steps and no append reaches below a snapshot. -/
inductive Span (setup : Setup machine) (cluster target : Cluster machine) : Prop
  | plain (off : ∀ owner, (setup.config owner).snapshotThreshold = 0)
      (reached : Reachable setup Cluster.ChangesSafely cluster)
      (later : Reaches setup Cluster.ChangesSafely cluster target)
  | compacting (reached : Reachable setup Cluster.CompactsSafely cluster)
      (later : Reaches setup Cluster.CompactsSafely cluster target)

theorem Span.explained (span : Span setup cluster target) : ∃ compacts history after,
    Explained setup compacts history cluster ∧ Explained setup compacts after target ∧
      Extends history after := by
  obtain ⟨compacts, Allowed, threshold, safe, reached, later⟩ :
      ∃ (compacts : Prop) (Allowed : Cluster machine → Action → Prop),
        (∀ owner, (setup.config owner).snapshotThreshold ≠ 0 → compacts) ∧
        (∀ history cluster action, Explained setup compacts history cluster →
          Allowed cluster action → ActsSafely compacts cluster action) ∧
        Reachable setup Allowed cluster ∧ Reaches setup Allowed cluster target := by
    cases span with
    | plain off reached later =>
      refine ⟨False, _, fun owner positive => positive (off owner), ?_, reached, later⟩
      intro history cluster action explained safe
      exact ⟨fun target addressed => ⟨safe target addressed, explained.appendsSafely id _ _⟩, False.elim⟩
    | compacting reached later =>
      refine ⟨True, _, fun _ _ => trivial, ?_, reached, later⟩
      intro history cluster action explained safe
      exact ⟨fun target addressed => ⟨safe.1 target addressed, safe.2.1 target addressed⟩, fun _ => safe.2.2⟩
  obtain ⟨history, explained, -⟩ :=
    (Explained.boot setup compacts threshold).reaches threshold safe reached
  obtain ⟨after, explained', grows⟩ := explained.reaches threshold safe later
  exact ⟨compacts, history, after, explained, explained', grows⟩

/-- The last chunk of the snapshot reaches the third voter. -/
def afterLastChunk : Cluster counting :=
  afterFirstChunk.act (electorate 3 byteByByte) (.step (.deliver 11) 0 [])

theorem span_afterFirstChange : Span (electorate 3 { preVote := false }) afterFirstCommit afterFirstChange :=
  .plain (fun _ => rfl) (Reaches.refl.of_allows (by decide +kernel)) (.act .refl (by decide +kernel))

theorem entryAt_firstChange : (afterFirstCommit.nodes 2).storage.entryAt 1 = some ⟨1, 1, .noop⟩ ∧
      (afterFirstChange.nodes 1).storage.entryAt 1 = some ⟨1, 1, .noop⟩ := by
  decide +kernel

theorem span_afterLastChunk : Span (electorate 3 byteByByte) afterFirstChunk afterLastChunk :=
  .compacting (Reaches.refl.of_allows (by decide +kernel)) (.act .refl (by decide +kernel))

private theorem getElem?_of_isPrefix {log longer : List LogEntry} {position : ℕ} (grown : log <+: longer)
    (found : log[position]? = some entry) : longer[position]? = some entry := by
  obtain ⟨inside, rfl⟩ := List.getElem?_eq_some_iff.mp found
  exact prefix_iff_getElem?.mp grown position inside

namespace Explained

variable {history after : History} (explained : Explained setup compacts history cluster)
  (explained' : Explained setup compacts after target) (grows : Extends history after)
include explained

/-- What a node stores is what its whole log has at the same index. -/
theorem stored (held : (cluster.nodes owner).storage.entryAt index = some entry) :
    ∃ position, index = position + 1 ∧ (history.log owner)[position]? = some entry := by
  have view := (explained.nodes owner).log
  have above : (cluster.nodes owner).storage.snapIndex < index := by
    by_contra below
    rw [view.entryAt_none (.inl (not_lt.mp below))] at held
    cases held
  have within : index ≤ (history.log owner).length := by
    by_contra outside
    rw [view.entryAt_none (.inr (not_le.mp outside))] at held
    cases held
  exact ⟨index - 1, by omega, (view.entryAt above within).symm.trans held⟩

/-- What the whole log has, a node stores unless its snapshot covers it. -/
private theorem stored_or_compacted (found : (history.log owner)[position]? = some entry) :
    (cluster.nodes owner).storage.entryAt (position + 1) = some entry ∨
      position + 1 ≤ (cluster.nodes owner).storage.snapIndex := by
  rcases Nat.lt_or_ge (cluster.nodes owner).storage.snapIndex (position + 1) with above | below
  · left
    rw [(explained.nodes owner).log.entryAt above (List.getElem?_eq_some_iff.mp found).1]
    exact found
  · exact .inr below

include explained'

/-- Where two logs agree, the nodes that store both sides store the same. -/
theorem entry_eq (agree : (history.log first).take index = (after.log second).take index)
    (below : lower ≤ index) (held : (cluster.nodes first).storage.entryAt lower = some entry)
    (held' : (target.nodes second).storage.entryAt lower = some entry') : entry = entry' := by
  obtain ⟨position, rfl, found⟩ := explained.stored held
  obtain ⟨_, ⟨⟩, found'⟩ := explained'.stored held'
  have same := congrArg (·[position]?) agree
  simp only [getElem?_take, Nat.lt_of_succ_le below, if_true] at same
  exact Option.some.inj (found.symm.trans (same.trans found'))

include grows

/-- Entries of one term at one position stand on logs that agree up to them. -/
theorem take_eq_of_term (found : (history.log first)[position]? = some entry)
    (found' : (after.log second)[position]? = some entry') (same : entry.term = entry'.term) :
    (history.log first).take (position + 1) = (after.log second).take (position + 1) := by
  have upTo : ∀ {log : List LogEntry} {entry}, log[position]? = some entry →
      log.take (position + 1) = log.take position ++ [entry] := fun {log entry} found => by
    rw [take_add_one, found]
    rfl
  have inside := (List.getElem?_eq_some_iff.mp found).1
  have inside' := (List.getElem?_eq_some_iff.mp found').1
  have agree := (grows.rooted (explained.inv.logRooted first)).matching
    (explained'.inv.logRooted second) (upTo found ▸ take_prefix _ _)
    (upTo found' ▸ take_prefix _ _) same (by simp; omega)
  rw [← upTo found, prefix_iff_eq_take, length_take_of_le inside] at agree
  exact agree

/-- Two nodes agree on what both hold committed. -/
theorem take_eq_of_committed (within : index ≤ (cluster.nodes first).commitIndex)
    (within' : index ≤ (target.nodes second).commitIndex) :
    (history.log first).take index = (after.log second).take index := by
  have node := explained.nodes first
  have node' := explained'.nodes second
  have size : ((history.log first).take index).length = ((after.log second).take index).length := by
    rw [length_take_of_le (within.trans node.commitLe), length_take_of_le (within'.trans node'.commitLe)]
  have committed := (node.committed.mono grows le_rfl).shorten (take_prefix_take_left within)
  rcases committed.comparable (node'.committed.shorten (take_prefix_take_left within'))
    explained'.inv with shorter | longer
  · exact shorter.eq_of_length size
  · exact (longer.eq_of_length size.symm).symm

end Explained

/-- Log matching, across the time of a run: nodes that store entries of one term at an index store
the same entry at every index up to it that both still store. -/
theorem log_matching (span : Span setup cluster target)
    (held : (cluster.nodes first).storage.entryAt index = some entry)
    (held' : (target.nodes second).storage.entryAt index = some entry')
    (same : entry.term = entry'.term) (below : lower ≤ index)
    (early : (cluster.nodes first).storage.entryAt lower = some former)
    (early' : (target.nodes second).storage.entryAt lower = some former') : former = former' := by
  obtain ⟨compacts, history, after, explained, explained', grows⟩ := span.explained
  obtain ⟨position, rfl, found⟩ := explained.stored held
  obtain ⟨_, ⟨⟩, found'⟩ := explained'.stored held'
  have agree := explained.take_eq_of_term explained' grows found found' same
  exact explained.entry_eq explained' agree below early early'

/-- Two voters that store the first leader's two entries. -/
theorem log_matching_twoEntries :
    let cluster := (firstChunk.take 5).foldl (Cluster.act (electorate 3 byteByByte))
      (electorate 3 byteByByte).boot
    (cluster.nodes 1).storage.entryAt 2 = some ⟨1, 2, .bytes []⟩ ∧
      ∀ entry, (cluster.nodes 2).storage.entryAt 1 = some entry → ⟨1, 1, .noop⟩ = entry := by
  intro cluster
  have span : Span (electorate 3 byteByByte) cluster cluster :=
    .compacting (Reaches.refl.of_allows (by decide +kernel)) .refl
  have held : (cluster.nodes 1).storage.entryAt 2 = some ⟨1, 2, .bytes []⟩ := by decide +kernel
  have held' : (cluster.nodes 2).storage.entryAt 2 = some ⟨1, 2, .bytes []⟩ := by decide +kernel
  have early : (cluster.nodes 1).storage.entryAt 1 = some ⟨1, 1, .noop⟩ := by decide +kernel
  exact ⟨held, fun entry => log_matching span held held' rfl (by decide) early⟩

/-- Nodes whose logs end alike have the same members, across membership changes, compaction and
installed snapshots. -/
theorem same_members (span : Span setup cluster target) (index : (cluster.nodes first).storage.lastLogIndex =
      (target.nodes second).storage.lastLogIndex)
    (term : (cluster.nodes first).storage.lastLogTerm = (target.nodes second).storage.lastLogTerm) :
    (cluster.nodes first).voters = (target.nodes second).voters ∧
      (cluster.nodes first).learners = (target.nodes second).learners := by
  obtain ⟨compacts, history, after, explained, explained', grows⟩ := span.explained
  have node := explained.nodes first
  have node' := explained'.nodes second
  rw [node.log.lastIndex, node'.log.lastIndex] at index
  rw [node.log.lastTerm, node'.log.lastTerm] at term
  have agree : history.log first = after.log second := by
    rcases eq_nil_or_concat (history.log first) with empty | ⟨front, entry, split⟩
    · rw [empty] at index ⊢
      exact (eq_nil_of_length_eq_zero index.symm).symm
    rcases eq_nil_or_concat (after.log second) with empty | ⟨front', entry', split'⟩
    · simp [split, empty] at index
    have size : front.length = front'.length := by simpa [split, split'] using index
    have found : (history.log first)[front.length]? = some entry := by simp [split]
    have found' : (after.log second)[front.length]? = some entry' := by simp [split', size]
    rw [split, split', concat_eq_append, concat_eq_append, lastTerm_concat, lastTerm_concat] at term
    have upTo := explained.take_eq_of_term explained' grows found found' term
    rwa [take_of_length_le (by simp [split]), take_of_length_le (by simp [split', size])] at upTo
  rw [← Prod.mk.injEq, node.config, node'.config, agree]

theorem same_members_lastChunk : (afterFirstChunk.nodes 3).storage.lastLogIndex = 0 ∧
      (afterLastChunk.nodes 3).storage.lastLogIndex = 2 ∧
      (afterFirstChunk.nodes 1).voters = (afterLastChunk.nodes 3).voters := by
  refine ⟨by decide +kernel, by decide +kernel, ?_⟩
  exact (same_members span_afterLastChunk (by decide +kernel) (by decide +kernel)).1

/-- Committed entries agree, across the time of a run. -/
theorem committed_agree (span : Span setup cluster target)
    (within : index ≤ (cluster.nodes first).commitIndex)
    (held : (cluster.nodes first).storage.entryAt index = some entry)
    (within' : index ≤ (target.nodes second).commitIndex)
    (held' : (target.nodes second).storage.entryAt index = some entry') : entry = entry' := by
  obtain ⟨compacts, history, after, explained, explained', grows⟩ := span.explained
  have agree := explained.take_eq_of_committed explained' grows within within'
  exact explained.entry_eq explained' agree le_rfl held held'

theorem committed_agree_firstCommit : (afterFirstChange.nodes 1).commitIndex = 1 ∧
    ∀ entry, (afterFirstChange.nodes 1).storage.entryAt 1 = some entry → ⟨1, 1, .noop⟩ = entry := by
  refine ⟨by decide +kernel, fun entry held => ?_⟩
  exact committed_agree span_afterFirstChange (by decide +kernel) entryAt_firstChange.1
    (by decide +kernel) held

/-- Nodes that have applied the same number of entries are in states with the same snapshot,
whether they applied the entries, restored them or had them installed; and snapshots that reach to
the same index have the same bytes and the same members. -/
theorem states_agree (span : Span setup cluster target) (image : Imaging setup) :
    ((cluster.nodes first).lastApplied = (target.nodes second).lastApplied →
      machine.snapshot (cluster.nodes first).sm = machine.snapshot (target.nodes second).sm) ∧
    ((cluster.nodes first).storage.snapIndex = (target.nodes second).storage.snapIndex →
      0 < (cluster.nodes first).storage.snapIndex →
      (cluster.nodes first).storage.snapData = (target.nodes second).storage.snapData ∧
        (cluster.nodes first).storage.configBaseline = (target.nodes second).storage.configBaseline) := by
  obtain ⟨compacts, history, after, explained, explained', grows⟩ := span.explained
  have node := explained.nodes first
  have node' := explained'.nodes second
  constructor
  · intro same
    rw [image.snapshot _ _ (node.state image), image.snapshot _ _ (node'.state image), ← same,
      explained.take_eq_of_committed explained' grows node.appliedLe (same ▸ node'.appliedLe)]
  · intro same positive
    have agree := explained.take_eq_of_committed explained' grows
      (node.snapLe.trans node.appliedLe) (same ▸ node'.snapLe.trans node'.appliedLe)
    rw [node.data positive image, node'.data (same ▸ positive) image, node.savedBaseline positive,
      node'.savedBaseline (same ▸ positive), node.baseline, node'.baseline, ← same, agree]
    exact ⟨rfl, rfl⟩

theorem states_agree_lastChunk : (afterLastChunk.nodes 3).storage.snapIndex = 2 ∧
      counting.snapshot (afterFirstChunk.nodes 1).sm = counting.snapshot (afterLastChunk.nodes 3).sm ∧
      (afterFirstChunk.nodes 1).storage.snapData = (afterLastChunk.nodes 3).storage.snapData := by
  have agree := @states_agree _ _ _ _ 1 3 span_afterLastChunk (countingImage 3 byteByByte)
  exact ⟨by decide +kernel, agree.1 (by decide +kernel), (agree.2 (by decide +kernel) (by decide +kernel)).1⟩

/-- The log of a leader: it stores, or has compacted, whatever any node held committed in its own
term or an earlier one, and whatever it or another leader of its term stored before. -/
theorem leader_keeps (span : Span setup cluster target) (leads : (target.nodes leader).role = .leader)
    (held : (cluster.nodes owner).storage.entryAt index = some entry)
    (reason : index ≤ (cluster.nodes owner).commitIndex ∧
        (cluster.nodes owner).storage.currentTerm ≤ (target.nodes leader).storage.currentTerm ∨
      (cluster.nodes owner).role = .leader ∧
        (cluster.nodes owner).storage.currentTerm = (target.nodes leader).storage.currentTerm) :
    (target.nodes leader).storage.entryAt index = some entry ∨
      index ≤ (target.nodes leader).storage.snapIndex := by
  obtain ⟨compacts, history, after, explained, explained', grows⟩ := span.explained
  obtain ⟨position, rfl, found⟩ := explained.stored held
  apply explained'.stored_or_compacted
  have node := explained.nodes owner
  have node' := explained'.nodes leader
  obtain ⟨onBranch, election, won, -, term⟩ :=
    explained'.inv.leads leader (node'.role.trans (by rw [leads]; rfl))
  rw [node.term, node'.term] at reason
  rw [onBranch]
  rcases reason with ⟨within, before⟩ | ⟨led, same⟩
  · have committed := (node.committed.mono grows before).on_branch explained'.inv ⟨election, won, term⟩
    refine getElem?_of_isPrefix committed ?_
    rw [getElem?_take, if_pos (Nat.lt_of_succ_le within), found]
  · have grown := grows.branches (history.term owner)
    rw [← (explained.inv.leads owner (node.role.trans (by rw [led]; rfl))).1, same] at grown
    exact getElem?_of_isPrefix grown found

theorem leader_keeps_firstCommit : (afterFirstCommit.nodes 2).role = .follower ∧
    ((afterFirstChange.nodes 1).storage.entryAt 1 = some ⟨1, 1, .noop⟩ ∨
      1 ≤ (afterFirstChange.nodes 1).storage.snapIndex) := by
  refine ⟨by decide +kernel, ?_⟩
  exact leader_keeps span_afterFirstChange (by decide +kernel) entryAt_firstChange.1
    (.inl (by decide +kernel))

/-- A node's vote of a term shows: it has granted it in an answer, or the candidate counts it, as
every candidate counts its own. -/
def Cluster.Votes (cluster : Cluster machine) (voter candidate : NodeId) (term : ℕ) : Prop :=
  ⟨voter, candidate, .requestVoteResp term true⟩ ∈ cluster.network ∨
    (cluster.nodes candidate).storage.currentTerm = term ∧
      (cluster.nodes candidate).role ≠ .follower ∧ voter ∈ (cluster.nodes candidate).votes

theorem Cluster.Fair.cast (fair : cluster.Fair setup ballots)
    (votes : cluster.Votes voter candidate term) : ballots voter term = some candidate := by
  rcases votes with granted | ⟨rfl, stands, counted⟩
  · exact fair.network _ granted rfl
  · exact (fair.nodes candidate).tally stands voter counted

/-- With a static membership, a node gives its vote of a term to one candidate in all of a run,
itself included, and for as long as it is in the term it has that vote on disk, wherever crashes
cut its writes short. -/
theorem vote_once (reached : Reachable setup (fun _ action => action.Static) cluster)
    (later : Reaches setup (fun _ action => action.Static) cluster target)
    (votes : cluster.Votes voter first term) : (∀ second, target.Votes voter second term → first = second) ∧
      term ≤ (target.nodes voter).storage.currentTerm ∧
      ((target.nodes voter).storage.currentTerm = term →
        (target.nodes voter).storage.votedFor = some first) := by
  obtain ⟨ballots, -, fair, -⟩ := (Cluster.Fair.boot setup).reaches reached
  obtain ⟨after, keeps, fair', -⟩ := fair.reaches later
  have cast : after voter term = some first := keeps _ _ _ (fair.cast votes)
  have backs := (fair'.nodes voter).backs
  refine ⟨fun second votes' => ?_, backs.past term first cast, fun same => ?_⟩
  · exact Option.some.inj (cast.symm.trans (fair'.cast votes'))
  · exact backs.present first (same ▸ cast)

/-- The second candidacy of the first node, whose first one a crash cut short. -/
theorem vote_once_halfVote : afterHalfVote.Votes 1 1 2 ∧ afterHalfVote.Votes 2 1 2 ∧
    (∀ second, afterHalfVote.Votes 1 second 2 → 1 = second) ∧
    (afterHalfVote.nodes 1).storage.votedFor = some 1 := by
  have own : afterHalfVote.Votes 1 1 2 := .inr (by decide +kernel)
  obtain ⟨once, -, kept⟩ := vote_once afterHalfVote_reachable .refl own
  exact ⟨own, .inl (by decide +kernel), once, kept (by decide +kernel)⟩

end IronCache.Raft
