import IronCache.Lib.Consensus.Completeness

/-!
# Every step keeps the invariant

One lemma for what each step leaves in place, and one for the invariant after it.
-/

namespace IronCache.Consensus

open Function (update update_apply)

variable {N : Type u} {E : Type v} [DecidableEq N] {P : Protocol N E} {state : State N E}

theorem Inv.initial (P : Protocol N E) : Inv P State.initial where
  branchRooted _ := fun _ _ inLog => by simp [State.initial] at inLog
  branchOrdered _ := .nil
  branchTerm _ := by simp [State.initial]
  branchEmpty _ _ := rfl
  branchEvidenced _ := fun _ _ inLog => by simp [State.initial] at inLog
  logRooted _ := fun _ _ inLog => by simp [State.initial] at inLog
  logTerm _ := by simp [State.initial]
  leads _ := by simp [State.initial]
  stands _ := by simp [State.initial]
  stood _ _ _ := by simp [State.initial]
  voted _ _ _ _ := by simp [State.initial]
  voteKeeps _ _ _ _ := by simp [State.initial]
  ackBound _ _ := le_rfl
  ackTerm _ _ := by simp [State.initial]
  ackKeeps _ _ := fun _ onBranch _ _ => onBranch
  unique := by simp [State.initial]
  won := by simp [State.initial]
  made := by simp [State.initial]
  grounded := .nil
  complete := by simp [State.initial]

theorem Extends.bump (node : N) (later : state.term node < term) : Extends state (state.bump node term) :=
  { Extends.refl state with
    terms := fun other => by
      by_cases same : other = node
      · subst same
        simpa [State.bump] using later.le
      · simp [State.bump, same] }

theorem Inv.bump (inv : Inv P state) (later : state.term node < term) : Inv P (state.bump node term) := by
  have grows := Extends.bump node later
  refine { inv with
    logTerm := fun other entry member => (inv.logTerm other entry member).trans (grows.terms other)
    leads := ?_
    stands := ?_
    stood := fun other term log stood =>
      (inv.stood other term log stood).imp_left fun bound => bound.trans (grows.terms other)
    voted := fun other term candidate log cast =>
      (inv.voted other term candidate log cast).imp_left fun bound => bound.trans (grows.terms other)
    ackTerm := fun other term positive => (inv.ackTerm other term positive).trans (grows.terms other)
    ackKeeps := fun other term => grows.keeps inv.ackBound rfl (inv.ackKeeps other term)
      (Nat.succ_le_succ (grows.terms other))
    won := fun election member => { inv.won election member with }
    made := fun commit member => { inv.made commit member with } }
  · intro other leading
    by_cases same : other = node
    · simp [State.bump, same] at leading
    · simpa [State.bump, same] using inv.leads other (by simpa [State.bump, same] using leading)
  · intro other standing
    by_cases same : other = node
    · simp [State.bump, same] at standing
    · simpa [State.bump, same] using inv.stands other (by simpa [State.bump, same] using standing)

theorem Inv.stepDown (inv : Inv P state) (node : N) : Inv P (state.stepDown node) := by
  refine { inv with
    leads := ?_
    stands := ?_
    won := fun election member => { inv.won election member with }
    made := fun commit member => { inv.made commit member with } }
  · intro other leading
    by_cases same : other = node
    · simp [State.stepDown, same] at leading
    · exact inv.leads other (by simpa [State.stepDown, same] using leading)
  · intro other standing
    by_cases same : other = node
    · simp [State.stepDown, same] at standing
    · exact inv.stands other (by simpa [State.stepDown, same] using standing)

theorem Extends.stand (node : N) (unused : state.campaigns node (state.term node) = none) :
    Extends state (state.stand node) :=
  { Extends.refl state with
    campaigns := fun other term log stood => by
      by_cases same : other = node ∧ term = state.term node
      · rw [same.1, same.2, unused] at stood
        exact absurd stood nofun
      · simpa [State.stand, record_apply, same] using stood }

theorem Inv.stand (inv : Inv P state) (unused : state.campaigns node (state.term node) = none)
    (positive : 0 < state.term node) (older : ∀ entry ∈ state.log node, P.term entry < state.term node) :
    Inv P (state.stand node) := by
  have grows := Extends.stand node unused
  refine { inv with
    leads := ?_
    stands := ?_
    stood := ?_
    voted := fun other term candidate log cast => ?_
    won := fun election member =>
      { inv.won election member with stood := grows.campaigns _ _ _ (inv.won election member).stood }
    made := fun commit member => { inv.made commit member with } }
  · intro other leading
    by_cases same : other = node
    · simp [State.stand, same] at leading
    · exact inv.leads other (by simpa [State.stand, same] using leading)
  · intro other standing
    by_cases same : other = node
    · subst same
      refine ⟨by simp [State.stand], fun election member term => ?_⟩
      rintro rfl
      have stood := (inv.won election member).stood
      rw [term] at stood
      exact Option.some_ne_none _ (stood.symm.trans unused)
    · obtain ⟨stood, first⟩ := inv.stands other (by simpa [State.stand, same] using standing)
      exact ⟨grows.campaigns _ _ _ stood, first⟩
  · intro other term log stood
    simp only [State.stand, record_apply] at stood
    split_ifs at stood with same
    · obtain rfl := Option.some.inj stood
      obtain ⟨rfl, rfl⟩ := same
      exact ⟨le_rfl, positive, inv.logRooted other, older⟩
    · exact inv.stood other term log stood
  · obtain ⟨bound, rooted, stoodLog, stood, recent⟩ := inv.voted other term candidate log cast
    exact ⟨bound, rooted, stoodLog, grows.campaigns _ _ _ stood, recent⟩

theorem Extends.castVote (node candidate : N) (free : state.votes node (state.term node) = none) :
    Extends state (state.castVote node candidate) :=
  { Extends.refl state with
    votes := fun other term vote cast => by
      by_cases same : other = node ∧ term = state.term node
      · rw [same.1, same.2, free] at cast
        exact absurd cast nofun
      · simpa [State.castVote, record_apply, same] using cast }

theorem castVote_votes (cast : (state.castVote node candidate).votes other term = some (choice, log)) :
    other = node ∧ term = state.term node ∧ choice = candidate ∧ log = state.log node ∨
      state.votes other term = some (choice, log) := by
  simp only [State.castVote, record_apply] at cast
  split_ifs at cast with same
  · simp only [Option.some.injEq, Prod.mk.injEq] at cast
    exact .inl ⟨same.1, same.2, cast.1.symm, cast.2.symm⟩
  · exact .inr cast

theorem Inv.castVote (inv : Inv P state)
    (standing : state.campaigns candidate (state.term node) = some candidateLog)
    (free : state.votes node (state.term node) = none)
    (recent : P.UpToDate candidateLog (state.log node)) : Inv P (state.castVote node candidate) := by
  have grows := Extends.castVote node candidate free
  refine { inv with
    voted := ?_
    voteKeeps := ?_
    won := fun election member =>
      { inv.won election member with
        support := fun voter inQuorum => ?_ }
    made := fun commit member => { inv.made commit member with } }
  · intro other term choice log cast
    rcases castVote_votes cast with ⟨rfl, rfl, rfl, rfl⟩ | before
    · exact ⟨le_rfl, inv.logRooted other, candidateLog, standing, recent⟩
    · exact inv.voted other term choice log before
  · intro other term choice log cast earlier less
    rcases castVote_votes cast with ⟨rfl, rfl, rfl, rfl⟩ | before
    · exact inv.ackKeeps other earlier
    · exact inv.voteKeeps other term choice log before earlier less
  · obtain ⟨log, cast, kept⟩ := (inv.won election member).support voter inQuorum
    exact ⟨log, grows.votes _ _ _ cast, kept⟩

theorem Protocol.UpToDate.refl (P : Protocol N E) (log : List E) : P.UpToDate log log :=
  .inr ⟨rfl, le_rfl⟩

section Campaign

variable (inv : Inv P state) (node : N)
include inv

theorem Inv.unused_after_bump :
    (state.bump node (state.term node + 1)).campaigns node (state.term node + 1) = none := by
  cases stood : state.campaigns node (state.term node + 1) with
  | none => exact stood
  | some log =>
    have := (inv.stood _ _ _ stood).1
    omega

theorem Inv.free_after_bump :
    (state.bump node (state.term node + 1)).votes node (state.term node + 1) = none := by
  cases cast : state.votes node (state.term node + 1) with
  | none => exact cast
  | some vote =>
    have := (inv.voted _ _ vote.1 vote.2 cast).1
    omega

theorem Extends.campaign : Extends state (state.campaign node) := by
  have bumped : Extends state (state.bump node (state.term node + 1)) :=
    .bump node (Nat.lt_succ_self _)
  refine bumped.trans ((Extends.stand node ?_).trans (Extends.castVote node node ?_))
  · simpa [State.bump] using inv.unused_after_bump node
  · simpa [State.bump, State.stand] using inv.free_after_bump node

theorem Inv.campaign : Inv P (state.campaign node) := by
  have bumped : Inv P (state.bump node (state.term node + 1)) := inv.bump (Nat.lt_succ_self _)
  have standing : Inv P ((state.bump node (state.term node + 1)).stand node) := by
    refine bumped.stand ?_ (by simp [State.bump]) ?_
    · simpa [State.bump] using inv.unused_after_bump node
    · intro entry member
      simpa [State.bump, Nat.lt_succ_iff] using inv.logTerm node entry member
  refine standing.castVote ?_ ?_ (.refl P (state.log node))
  · simp [State.bump, State.stand]
  · simpa [State.bump, State.stand] using inv.free_after_bump node

end Campaign

theorem Extends.elect (inv : Inv P state) (quorum : Finset N)
    (first : ¬ state.Elected (state.term node)) : Extends state (state.elect node quorum) :=
  { Extends.refl state with
    branches := fun term => by
      by_cases same : term = state.term node
      · simp [State.elect, same, inv.branchEmpty _ first]
      · simp [State.elect, same]
    elections := List.subset_cons_self _ _ }

/-- What holds of the branch of a term. -/
structure Branched (P : Protocol N E) (state : State N E) (term : ℕ) (log : List E) : Prop where
  rooted : Rooted P state log
  ordered : Ordered P log
  bounded : ∀ entry ∈ log, P.term entry ≤ term
  evidenced : P.Evidenced state.commits log

/-- A step that changes the branch of one term leaves what holds of the others. -/
theorem Inv.branched (inv : Inv P state) (grows : Extends state after)
    (changed : ∀ other, after.branch other = if other = term then log else state.branch other)
    (new : Branched P after term log) (other : ℕ) : Branched P after other (after.branch other) := by
  rw [changed]
  split_ifs with same
  · exact same ▸ new
  · exact ⟨grows.rooted (inv.branchRooted other), inv.branchOrdered other, inv.branchTerm other,
      grows.evidenced (inv.branchEvidenced other)⟩

/-- An election stays won as the branches grow, if its own branch grows by entries of its term. -/
theorem Inv.won_extends (inv : Inv P state) (grows : Extends state after) (acks : after.acks = state.acks)
    (member : election ∈ state.elections)
    (above : ∀ before entry, before ++ [entry] <+: after.branch election.term →
      election.log.length ≤ before.length → P.term entry = election.term) :
    ElectionFacts P after election where
  stood := grows.campaigns _ _ _ (inv.won election member).stood
  base := (inv.won election member).base.trans (grows.branches _)
  above := above
  majority := (inv.won election member).majority
  support := fun voter inQuorum => by
    obtain ⟨log, cast, kept⟩ := (inv.won election member).support voter inQuorum
    exact ⟨log, grows.votes _ _ _ cast, fun term less =>
      grows.keeps inv.ackBound (congrFun (congrFun acks _) _) (kept term less) le_rfl⟩

section Elect

variable {node : N} {quorum : Finset N} (inv : Inv P state) (candidate : state.role node = .candidate)
  (majority : IsMajority (P.voters (state.log node)) quorum)
  (support : ∀ voter ∈ quorum, ∃ log, state.votes voter (state.term node) = some (node, log))
include inv candidate majority support

theorem Inv.elected_elect :
    ElectionFacts P (state.elect node quorum) ⟨node, state.term node, state.log node, quorum⟩ := by
  have first := inv.candidate_first candidate majority support
  refine
    { stood := (inv.stands node candidate).1
      base := by simp [State.elect]
      above := fun before entry inBranch longer => ?_
      majority
      support := fun voter inQuorum => ?_ }
  · have := inBranch.length_le
    simp [State.elect] at this longer
    omega
  · obtain ⟨log, cast⟩ := support voter inQuorum
    refine ⟨log, cast, fun term less held onBranch confirmed carried => ?_⟩
    have onBranch' : held <+: state.branch term :=
      List.prefix_of_prefix_length_le onBranch ((Extends.elect inv quorum first).branches term)
        (confirmed.trans (inv.ackBound voter term))
    -- No election of this term has been won before, so the vote's bound is strict.
    refine inv.voteKeeps _ _ _ _ cast term less held onBranch' confirmed
      fun election won later bound => carried election (List.mem_cons_of_mem _ won) later ?_
    exact lt_of_le_of_ne (Nat.lt_succ_iff.mp bound) fun same => first ⟨election, won, same⟩

theorem Inv.unique_elect : ∀ left ∈ (state.elect node quorum).elections,
    ∀ right ∈ (state.elect node quorum).elections, left.term = right.term → left = right := by
  have first := inv.candidate_first candidate majority support
  intro left leftMember right rightMember same
  rcases List.mem_cons.mp leftMember with rfl | leftBefore <;>
    rcases List.mem_cons.mp rightMember with rfl | rightBefore
  · rfl
  · exact absurd ⟨right, rightBefore, same.symm⟩ first
  · exact absurd ⟨left, leftBefore, same⟩ first
  · exact inv.unique left leftBefore right rightBefore same

theorem Inv.elect : Inv P (state.elect node quorum) := by
  have first := inv.candidate_first candidate majority support
  have grows := Extends.elect inv quorum first
  have holds := inv.candidate_holds candidate majority support inv.grounded (List.Subset.refl _)
  obtain ⟨-, -, rooted, -⟩ := inv.stood node _ _ (inv.stands node candidate).1
  have branch : ∀ term, (state.elect node quorum).branch term =
      if term = state.term node then state.log node else state.branch term := fun term => by
    simp [State.elect, update_apply]
  have unchanged : ∀ term, state.Elected term →
      (state.elect node quorum).branch term = state.branch term := fun term won => by
    rw [branch, if_neg (by rintro rfl; exact first won)]
  have branched := inv.branched grows branch
    ⟨grows.rooted rooted, inv.logOrdered node, inv.logTerm node, inv.evidenced_of_rooted rooted⟩
  refine
    { branchRooted := fun term => (branched term).rooted
      branchOrdered := fun term => (branched term).ordered
      branchTerm := fun term => (branched term).bounded
      branchEmpty := fun term unelected => ?_
      branchEvidenced := fun term => (branched term).evidenced
      logRooted := fun other => grows.rooted (inv.logRooted other)
      logTerm := inv.logTerm
      leads := fun other leading => ?_
      stands := fun other standing => ?_
      stood := fun other term log stood =>
        (inv.stood other term log stood).imp_right fun rest =>
          rest.imp_right fun rest => rest.imp_left grows.rooted
      voted := fun other term choice log cast =>
        (inv.voted other term choice log cast).imp_right fun rest => rest.imp_left grows.rooted
      voteKeeps := fun other term choice log cast earlier less =>
        grows.keeps inv.ackBound rfl (inv.voteKeeps other term choice log cast earlier less) le_rfl
      ackBound := fun other term =>
        (inv.ackBound other term).trans (grows.branches term).length_le
      ackTerm := inv.ackTerm
      ackKeeps := fun other term => grows.keeps inv.ackBound rfl (inv.ackKeeps other term) le_rfl
      unique := inv.unique_elect candidate majority support
      won := fun election member => ?_
      made := fun commit member => { inv.made commit member with
        elected := grows.elected (inv.made commit member).elected
        branch := (inv.made commit member).branch.trans (grows.branches _) }
      grounded := inv.grounded
      complete := fun commit member election won later => ?_ }
  · rw [branch, if_neg, inv.branchEmpty term fun won => unelected (grows.elected won)]
    rintro rfl
    exact unelected ⟨_, List.mem_cons_self, rfl⟩
  · by_cases same : other = node
    · subst same
      exact ⟨by simp [State.elect], _, List.mem_cons_self, rfl, rfl⟩
    obtain ⟨log, election, member, atNode, term⟩ :=
      inv.leads other (by simpa [State.elect, same] using leading)
    exact ⟨log.trans (unchanged _ ⟨election, member, term⟩).symm, election,
      List.mem_cons_of_mem _ member, atNode, term⟩
  · have standing' : state.role other = .candidate ∧ other ≠ node := by
      by_cases same : other = node
      · simp [State.elect, same] at standing
      · exact ⟨by simpa [State.elect, same] using standing, same⟩
    obtain ⟨stood', others⟩ := inv.stands other standing'.1
    refine ⟨stood', fun election member term => ?_⟩
    rcases List.mem_cons.mp member with rfl | before
    · exact standing'.2.symm
    · exact others election before term
  · rcases List.mem_cons.mp member with rfl | before
    · exact inv.elected_elect candidate majority support
    · refine inv.won_extends grows rfl before ?_
      rw [unchanged election.term ⟨election, before, rfl⟩]
      exact (inv.won election before).above
  · rcases List.mem_cons.mp won with rfl | before
    · exact holds commit member later
    · exact inv.complete commit member election before later

end Elect

theorem Extends.append (inv : Inv P state) (leading : state.role node = .leader) (entry : E) :
    Extends state (state.append node entry) :=
  { Extends.refl state with
    branches := fun term => by
      by_cases same : term = state.term node
      · subst same
        simp [State.append, ← (inv.leads node leading).1]
      · simp [State.append, same] }

section Append

variable {node : N} {entry : E} (inv : Inv P state) (leading : state.role node = .leader)
  (current : P.term entry = state.term node)
include inv leading current

/-- The longer log is on the branch of the term that it ends with. -/
theorem Inv.branched_append
    (evidence : P.Reconfigures entry → P.Evidence state.commits (state.log node) entry) :
    Branched P (state.append node entry) (state.term node) (state.log node ++ [entry]) := by
  have grows := Extends.append inv leading entry
  obtain ⟨-, election, won, -, wonTerm⟩ := inv.leads node leading
  refine ⟨fun before last inLog => ?_, ?_, fun other member => ?_, fun before last inLog reconfigures => ?_⟩
  · rcases List.prefix_concat_iff.mp inLog with whole | below
    · obtain ⟨rfl, same⟩ := List.append_inj' whole rfl
      obtain rfl : last = entry := by simpa using same
      rw [current]
      exact ⟨by simp [State.append], grows.elected ⟨election, won, wonTerm⟩⟩
    · exact grows.rooted (inv.logRooted node) before last below
  · refine List.pairwise_append.mpr ⟨inv.logOrdered node, List.pairwise_singleton _ _, ?_⟩
    intro earlier member last atEnd
    obtain rfl := List.mem_singleton.mp atEnd
    exact current ▸ inv.logTerm node earlier member
  · rcases List.mem_append.mp member with inLog | atEnd
    · exact inv.logTerm node other inLog
    · obtain rfl := List.mem_singleton.mp atEnd
      exact current.le
  · rcases List.prefix_concat_iff.mp inLog with whole | below
    · obtain ⟨rfl, same⟩ := List.append_inj' whole rfl
      obtain rfl : last = entry := by simpa using same
      exact evidence reconfigures
    · exact inv.evidenced_of_rooted (inv.logRooted node) before last below reconfigures

/-- The entry is of the term whose branch it is put on. -/
theorem Inv.above_append (member : election ∈ state.elections)
    (inBranch : before ++ [last] <+: (state.append node entry).branch election.term)
    (longer : election.log.length ≤ before.length) : P.term last = election.term := by
  simp only [State.append, update_apply] at inBranch
  split_ifs at inBranch with same
  · rcases List.prefix_concat_iff.mp inBranch with whole | below
    · obtain ⟨-, sameEntry⟩ := List.append_inj' whole rfl
      obtain rfl : last = entry := by simpa using sameEntry
      exact current.trans same.symm
    · rw [(inv.leads node leading).1, ← same] at below
      exact (inv.won election member).above before last below longer
  · exact (inv.won election member).above before last inBranch longer

theorem Inv.append (evidence : P.Reconfigures entry → P.Evidence state.commits (state.log node) entry) :
    Inv P (state.append node entry) := by
  have grows := Extends.append inv leading entry
  obtain ⟨-, election, won, atNode, wonTerm⟩ := inv.leads node leading
  have branch : ∀ term, (state.append node entry).branch term =
      if term = state.term node then state.log node ++ [entry] else state.branch term :=
    fun term => by simp [State.append, update_apply]
  have log : ∀ other, (state.append node entry).log other =
      if other = node then state.log node ++ [entry] else state.log other :=
    fun other => by simp [State.append, update_apply]
  have longer := inv.branched_append leading current evidence
  have branched := inv.branched grows branch longer
  refine
    { branchRooted := fun term => (branched term).rooted
      branchOrdered := fun term => (branched term).ordered
      branchTerm := fun term => (branched term).bounded
      branchEmpty := fun term unelected => ?_
      branchEvidenced := fun term => (branched term).evidenced
      logRooted := fun other => ?_
      logTerm := fun other => ?_
      leads := fun other leading' => ?_
      stands := fun other standing => ?_
      stood := fun other term log stood =>
        (inv.stood other term log stood).imp_right fun rest =>
          rest.imp_right fun rest => rest.imp_left grows.rooted
      voted := fun other term choice log cast =>
        (inv.voted other term choice log cast).imp_right fun rest => rest.imp_left grows.rooted
      voteKeeps := fun other term choice log cast earlier less =>
        grows.keeps inv.ackBound rfl (inv.voteKeeps other term choice log cast earlier less) le_rfl
      ackBound := fun other term =>
        (inv.ackBound other term).trans (grows.branches term).length_le
      ackTerm := inv.ackTerm
      ackKeeps := fun other term => ?_
      unique := inv.unique
      won := fun election member =>
        inv.won_extends grows rfl member fun _ _ => inv.above_append leading current member
      made := fun commit member => { inv.made commit member with
        branch := (inv.made commit member).branch.trans (grows.branches _) }
      grounded := inv.grounded
      complete := inv.complete }
  · rw [branch, if_neg, inv.branchEmpty term unelected]
    rintro rfl
    exact unelected ⟨election, won, wonTerm⟩
  · rw [log]
    split_ifs with same
    · exact longer.rooted
    · exact grows.rooted (inv.logRooted other)
  · rw [log]
    split_ifs with same
    · subst same
      exact longer.bounded
    · exact inv.logTerm other
  · obtain ⟨onBranch', election', won', atNode', term'⟩ := inv.leads other leading'
    refine ⟨?_, election', won', atNode', term'⟩
    rw [log, branch]
    by_cases same : other = node
    · simp [State.append, same]
    -- Two leaders of one term would have won the same election.
    have otherTerm : state.term other ≠ state.term node := fun sameTerm => by
      have := inv.unique election' won' election won (term'.trans (sameTerm.trans wonTerm.symm))
      exact same (atNode'.symm.trans (this ▸ atNode))
    rw [if_neg same]
    exact onBranch'.trans (if_neg otherTerm).symm
  · have different : other ≠ node := by
      rintro rfl
      exact absurd (leading.symm.trans standing) nofun
    rw [log, if_neg different]
    exact inv.stands other standing
  · rw [log]
    have kept := grows.keeps inv.ackBound rfl (inv.ackKeeps other term) le_rfl
    split_ifs with same
    · exact kept.mono_log (same ▸ List.prefix_append _ _)
    · exact kept

end Append

theorem Extends.accept (state : State N E) (node : N) (log : List E) :
    Extends state (state.accept node log) :=
  { Extends.refl state with }

theorem Inv.accept (inv : Inv P state) (follower : state.role node = .follower)
    (elected : state.Elected (state.term node))
    (adopts : Adopts (state.branch (state.term node)) (state.log node) log) :
    Inv P (state.accept node log) := by
  have logs : ∀ other, (state.accept node log).log other =
      if other = node then log else state.log other := fun other => by
    simp [State.accept, update_apply]
  have fromEither : log = state.log node ∨ log <+: state.branch (state.term node) :=
    adopts.imp_right And.left
  refine { inv with
    logRooted := fun other => ?_
    logTerm := fun other => ?_
    leads := fun other leading => ?_
    stands := fun other standing => ?_
    ackKeeps := fun other term => ?_
    won := fun election member => { inv.won election member with }
    made := fun commit member => { inv.made commit member with } }
  · rw [logs]
    split_ifs with same
    · rcases fromEither with rfl | onBranch
      · exact inv.logRooted node
      · exact (inv.branchRooted _).shorten onBranch
    · exact inv.logRooted other
  · rw [logs]
    split_ifs with same
    · subst same
      rcases fromEither with rfl | onBranch
      · exact inv.logTerm other
      · exact fun entry member => inv.branchTerm _ entry (onBranch.subset member)
    · exact inv.logTerm other
  · have different : other ≠ node := by
      rintro rfl
      exact absurd (follower.symm.trans leading) nofun
    rw [logs, if_neg different]
    exact inv.leads other leading
  · have different : other ≠ node := by
      rintro rfl
      exact absurd (follower.symm.trans standing) nofun
    rw [logs, if_neg different]
    exact inv.stands other standing
  · rw [logs]
    split_ifs with same
    swap
    · exact inv.ackKeeps other term
    subst same
    intro held onBranch confirmed carried
    have inLog := inv.ackKeeps other term held onBranch confirmed carried
    rcases adopts with rfl | ⟨-, greatest⟩
    · exact inLog
    refine greatest held inLog ?_
    -- The leader of the current term carries what was confirmed in this or an earlier term.
    rcases lt_trichotomy term (state.term other) with less | rfl | greater
    · obtain ⟨election, won, wonTerm⟩ := elected
      have inElection := carried election won (wonTerm ▸ less) (wonTerm ▸ Nat.lt_succ_self _)
      exact wonTerm ▸ inElection.trans (inv.won election won).base
    · exact onBranch
    · have none : ¬ 0 < state.acks other term := fun positive =>
        absurd (inv.ackTerm other term positive) (by omega)
      have empty : held.length = 0 := by
        have : held.length ≤ state.acks other term := confirmed
        omega
      exact List.length_eq_zero_iff.mp empty ▸ List.nil_prefix

theorem confirm_acks : (state.confirm node length).acks other term =
      if other = node ∧ term = state.term node then max (state.acks other term) length
      else state.acks other term := by
  simp only [State.confirm, record_apply]
  split_ifs with same
  · rw [same.1, same.2]
  · rfl

theorem Extends.confirm (state : State N E) (node : N) (length : ℕ) :
    Extends state (state.confirm node length) :=
  { Extends.refl state with
    acks := fun other term => by
      rw [confirm_acks]
      split_ifs with same
      · exact le_max_left _ _
      · exact le_rfl }

theorem Inv.confirm (inv : Inv P state) (holds : length ≤ (state.log node).length)
    (agrees : (state.log node).take length <+: state.branch (state.term node)) :
    Inv P (state.confirm node length) := by
  have grows := Extends.confirm state node length
  -- Confirmations of terms before the node's current one are untouched.
  have past : ∀ other term, term < state.term other →
      (state.confirm node length).acks other term = state.acks other term := by
    intro other term less
    rw [confirm_acks, if_neg]
    rintro ⟨rfl, rfl⟩
    exact lt_irrefl _ less
  refine { inv with
    voteKeeps := fun other term choice log cast earlier less => ?_
    ackBound := fun other term => ?_
    ackTerm := fun other term positive => ?_
    ackKeeps := fun other term => ?_
    won := fun election member => { inv.won election member with
      support := fun voter inQuorum => ?_ }
    made := fun commit member => { inv.made commit member with
      copied := fun voter inQuorum =>
        ((inv.made commit member).copied voter inQuorum).trans (grows.acks _ _) } }
  · have bound := (inv.voted other term choice log cast).1
    exact grows.keeps inv.ackBound (past other earlier (less.trans_le bound))
      (inv.voteKeeps other term choice log cast earlier less) le_rfl
  · rw [confirm_acks]
    split_ifs with same
    · obtain ⟨rfl, rfl⟩ := same
      have long := agrees.length_le
      rw [List.length_take_of_le holds] at long
      exact max_le (inv.ackBound other _) long
    · exact inv.ackBound other term
  · rw [confirm_acks] at positive
    split_ifs at positive with same
    · exact same.1 ▸ same.2.le
    · exact inv.ackTerm other term positive
  · intro held onBranch confirmed carried
    rw [confirm_acks] at confirmed
    split_ifs at confirmed with same
    swap
    · exact inv.ackKeeps other term held onBranch confirmed carried
    obtain ⟨rfl, rfl⟩ := same
    rcases le_max_iff.mp confirmed with before | now
    · exact inv.ackKeeps other _ held onBranch before carried
    have inTake : held <+: (state.log other).take length :=
      List.prefix_of_prefix_length_le onBranch agrees (by simpa [holds] using now)
    exact inTake.trans (List.take_prefix _ _)
  · obtain ⟨log, cast, kept⟩ := (inv.won election member).support voter inQuorum
    have bound := (inv.voted _ _ _ _ cast).1
    exact ⟨log, cast, fun term less => grows.keeps inv.ackBound
      (past voter term (less.trans_le bound)) (kept term less) le_rfl⟩

omit [DecidableEq N] in
theorem Extends.commit (state : State N E) (node : N) (log : List E) (quorum : Finset N) :
    Extends state (state.commit node log quorum) :=
  { Extends.refl state with commits := List.subset_cons_self _ _ }

theorem Inv.commit (inv : Inv P state) (leading : state.role node = .leader)
    (inLog : log <+: state.log node) (current : P.lastTerm log = state.term node)
    (majority : IsMajority (P.voters (state.log node)) quorum)
    (copied : ∀ voter ∈ quorum, log.length ≤ state.acks voter (state.term node)) :
    Inv P (state.commit node log quorum) := by
  have grows := Extends.commit state node log quorum
  obtain ⟨onBranch, election, won, -, term⟩ := inv.leads node leading
  have facts : CommitFacts P state ⟨state.term node, log, state.log node, quorum⟩ :=
    { elected := ⟨election, won, term⟩
      inBranch := inLog
      branch := onBranch ▸ List.prefix_rfl
      current
      majority
      copied }
  refine { inv with
    branchEvidenced := fun term => grows.evidenced (inv.branchEvidenced term)
    won := fun election member => { inv.won election member with }
    made := fun commit member => ?_
    grounded := .cons (inv.evidenced_of_rooted (inv.logRooted node)) inv.grounded
    complete := fun commit member => ?_ }
  · rcases List.mem_cons.mp member with rfl | before
    · exact { facts with }
    · exact { inv.made commit before with }
  · rcases List.mem_cons.mp member with rfl | before
    · exact inv.winner_holds facts
    · exact inv.complete commit before

theorem Inv.step (inv : Inv P state) (step : Step P node state after) : Inv P after := by
  cases step with
  | bump _ later => exact inv.bump later
  | stepDown => exact inv.stepDown node
  | campaign => exact inv.campaign node
  | vote candidate log stands free recent => exact inv.castVote stands free recent
  | elect quorum candidate majority support => exact inv.elect candidate majority support
  | append entry leader current evidence => exact inv.append leader current evidence
  | accept log follower elected adopts => exact inv.accept follower elected adopts
  | confirm length holds agrees => exact inv.confirm holds agrees
  | commit log quorum leader inLog current majority copied =>
    exact inv.commit leader inLog current majority copied

theorem Extends.step (inv : Inv P state) (step : Step P node state after) :
    Extends state after := by
  cases step with
  | bump _ later => exact .bump node later
  | stepDown => exact { Extends.refl state with }
  | campaign => exact .campaign inv node
  | vote candidate log stands free recent => exact .castVote node candidate free
  | elect quorum candidate majority support =>
    exact .elect inv quorum (inv.candidate_first candidate majority support)
  | append entry leader current evidence => exact .append inv leader entry
  | accept log follower elected adopts => exact .accept state node log
  | confirm length holds agrees => exact .confirm state node length
  | commit log quorum leader inLog current majority copied =>
    exact .commit state node log quorum

/-- A node's own part of the state is the same. -/
structure SameNode (state after : State N E) (node : N) : Prop where
  term : after.term node = state.term node
  role : after.role node = state.role node
  log : after.log node = state.log node
  votes : after.votes node = state.votes node

/-- A node's steps leave every other node's part of the state alone. -/
theorem Step.others (step : Step P node state after) (different : other ≠ node) :
    SameNode state after other := by
  cases step <;> constructor <;>
    simp [State.bump, State.stepDown, State.campaign, State.stand, State.castVote, State.elect,
      State.append, State.accept, State.confirm, State.commit, record, different]

theorem Inv.steps (inv : Inv P state) (steps : Steps P node state after) :
    Inv P after ∧ Extends state after := by
  induction steps with
  | refl => exact ⟨inv, .refl state⟩
  | tail _ step ih =>
    exact ⟨ih.1.step step, ih.2.trans (.step ih.1 step)⟩

theorem Steps.others (steps : Steps P node state after) (different : other ≠ node) :
    SameNode state after other := by
  induction steps with
  | refl => exact ⟨rfl, rfl, rfl, rfl⟩
  | tail _ step ih =>
    have same := step.others different
    exact ⟨same.term.trans ih.term, same.role.trans ih.role, same.log.trans ih.log, same.votes.trans ih.votes⟩

end IronCache.Consensus
