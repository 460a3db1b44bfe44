import IronCache.Lib.Consensus.Invariant

/-!
# Log matching and neighbouring configurations

Two rooted logs that hold an entry of the same term agree below it, and the voters they prescribe
differ in at most one node.
-/

namespace IronCache.Consensus

open List

theorem exists_greatest_common_prefix (left right : List E) : ∃ common, common <+: left ∧ common <+: right ∧
      ∀ other, other <+: left → other <+: right → other <+: common := by
  induction left generalizing right with
  | nil => exact ⟨[], prefix_rfl, nil_prefix, fun _ inLeft _ => inLeft⟩
  | cons head tail ih =>
    cases right with
    | nil => exact ⟨[], nil_prefix, prefix_rfl, fun _ _ inRight => inRight⟩
    | cons head' tail' =>
      by_cases same : head = head'
      · subst same
        obtain ⟨common, inLeft, inRight, greatest⟩ := ih tail'
        refine ⟨head :: common, prefix_cons_inj head |>.mpr inLeft,
          prefix_cons_inj head |>.mpr inRight, fun other first second => ?_⟩
        cases other with
        | nil => exact nil_prefix
        | cons first' rest =>
          obtain ⟨rfl, restFirst⟩ := cons_prefix_cons.mp first
          obtain ⟨-, restSecond⟩ := cons_prefix_cons.mp second
          exact (prefix_cons_inj _).mpr (greatest rest restFirst restSecond)
      · refine ⟨[], nil_prefix, nil_prefix, fun other first second => ?_⟩
        cases other with
        | nil => exact prefix_rfl
        | cons first' rest =>
          obtain ⟨rfl, -⟩ := cons_prefix_cons.mp first
          exact absurd (cons_prefix_cons.mp second).1 same

theorem exists_last_or_none (property : E → Prop) (items : List E) : (∀ item ∈ items, ¬ property item) ∨
      ∃ front item back, items = front ++ item :: back ∧ property item ∧
        ∀ later ∈ back, ¬ property later := by
  induction items with
  | nil => exact .inl (by simp)
  | cons head tail ih =>
    rcases ih with none | ⟨front, item, back, rfl, holds, last⟩
    · by_cases holds : property head
      · exact .inr ⟨[], head, tail, rfl, holds, none⟩
      refine .inl fun item member => ?_
      rcases mem_cons.mp member with rfl | inTail
      · exact holds
      · exact none item inTail
    · exact .inr ⟨head :: front, item, back, rfl, holds, last⟩

variable {N : Type u} {E : Type v} [DecidableEq N] {P : Protocol N E} {state : State N E}

@[simp]
theorem Protocol.lastTerm_concat (log : List E) (entry : E) : P.lastTerm (log ++ [entry]) = P.term entry := by
  simp [Protocol.lastTerm]

@[simp]
theorem Protocol.lastTerm_nil : P.lastTerm ([] : List E) = 0 := rfl

theorem Protocol.voters_append_keep (log tail : List E) (keep : ∀ entry ∈ tail, ¬ P.Reconfigures entry) :
    P.voters (log ++ tail) = P.voters log := by
  induction tail generalizing log with
  | nil => simp
  | cons head tail ih =>
    rw [append_cons, ih _ fun entry member => keep entry (.tail _ member)]
    exact P.voters_keep log head (keep head (.head _))

/-- Rooted logs inherit the order of the branches. -/
theorem Rooted.ordered (branches : ∀ term, Ordered P (state.branch term))
    (rooted : Rooted P state log) : Ordered P log := by
  rcases eq_nil_or_concat log with rfl | ⟨before, entry, rfl⟩
  · exact List.Pairwise.nil
  rw [concat_eq_append] at rooted ⊢
  obtain ⟨onBranch, -⟩ := rooted before entry prefix_rfl
  exact (branches _).sublist onBranch.sublist

theorem Ordered.le_of_mem_before (ordered : Ordered P log) (inLog : before ++ [entry] <+: log)
    (member : other ∈ before) : P.term other ≤ P.term entry :=
  (pairwise_append.mp (List.Pairwise.sublist inLog.sublist ordered)).2.2 other member entry (by simp)

/-- Log matching: of two rooted logs with an entry of one term each, the log whose entry
stands further on contains the other up to its entry. -/
theorem Rooted.matching (rooted : Rooted P state log) (rooted' : Rooted P state log')
    (inLog : before ++ [entry] <+: log) (inLog' : before' ++ [entry'] <+: log')
    (same : P.term entry = P.term entry') (shorter : before.length ≤ before'.length) :
    before ++ [entry] <+: log' := by
  obtain ⟨onBranch, -⟩ := rooted before entry inLog
  obtain ⟨onBranch', -⟩ := rooted' before' entry' inLog'
  rw [same] at onBranch
  refine (prefix_of_prefix_length_le onBranch onBranch' ?_).trans inLog'
  simpa using shorter

/-- Each reconfiguration of a log rests on a commitment that another log contains too. -/
def Protocol.SharesEvidence (P : Protocol N E) (log other : List E) : Prop :=
  ∀ before entry, before ++ [entry] <+: log → P.Reconfigures entry →
    ∃ shared, shared ≠ [] ∧ P.lastTerm shared = P.term entry ∧ shared <+: before ∧
      shared <+: other ∧ ∀ between ∈ before.drop shared.length, ¬ P.Reconfigures between

/-- Above a prefix that contains all its evidence, a log changes the voters at most once. -/
theorem Protocol.one_change_above (shares : P.SharesEvidence log other) (inLog : common <+: log)
    (greatest : ∀ shared, shared <+: log → shared <+: other → shared <+: common) :
    P.voters log = P.voters common ∨ Neighbours (P.voters common) (P.voters log) ∧
        ∃ before entry shared, before ++ [entry] <+: log ∧ common <+: before ∧
          shared <+: common ∧ shared ≠ [] ∧ P.lastTerm shared = P.term entry := by
  obtain ⟨tail, rfl⟩ := inLog
  rcases exists_last_or_none P.Reconfigures tail with none | ⟨front, entry, back, rfl, holds, last⟩
  · exact .inl (P.voters_append_keep common tail none)
  right
  have position : common ++ front ++ [entry] <+: common ++ (front ++ entry :: back) :=
    ⟨back, by simp⟩
  obtain ⟨shared, nonempty, term, below, inOther, between⟩ := shares _ entry position holds
  have inCommon : shared <+: common :=
    greatest shared (below.trans ((prefix_append _ _).trans position)) inOther
  have frontKeeps : ∀ item ∈ front, ¬ P.Reconfigures item := by
    intro item member
    refine between item ?_
    rw [drop_append_of_le_length inCommon.length_le]
    exact mem_append_right _ member
  refine ⟨?_, common ++ front, entry, shared, position, prefix_append _ _, inCommon, nonempty, term⟩
  have split : common ++ (front ++ entry :: back) = common ++ front ++ [entry] ++ back := by simp
  rw [split, P.voters_append_keep _ back last, ← P.voters_append_keep common front frontKeeps]
  exact P.voters_step _ _

private theorem lastTerm_le_of_prefix (ordered : Ordered P log) (inLog : before ++ [entry] <+: log)
    (nonempty : shared ≠ []) (below : shared <+: before) : P.lastTerm shared ≤ P.term entry := by
  rcases eq_nil_or_concat shared with rfl | ⟨front, last, rfl⟩
  · exact absurd rfl nonempty
  rw [concat_eq_append] at below ⊢
  rw [P.lastTerm_concat]
  exact ordered.le_of_mem_before inLog (below.subset (by simp))

/-- Two rooted logs that share the evidence for their reconfigurations prescribe
neighbouring voter sets. -/
theorem Protocol.neighbours_of_shared (branches : ∀ term, Ordered P (state.branch term))
    (rooted : Rooted P state log) (rooted' : Rooted P state log')
    (shares : P.SharesEvidence log log') (shares' : P.SharesEvidence log' log) :
    Neighbours (P.voters log) (P.voters log') := by
  obtain ⟨common, inLog, inLog', greatest⟩ := exists_greatest_common_prefix log log'
  rcases P.one_change_above shares inLog greatest with
    same | ⟨near, before, entry, shared, position, above, inCommon, nonempty, term⟩
  · rcases P.one_change_above shares' inLog' fun shared first second => greatest shared second first
      with same' | ⟨near', -⟩
    · exact .inl (same.trans same'.symm)
    · exact same ▸ near'
  rcases P.one_change_above shares' inLog' fun shared first second => greatest shared second first
    with same' | ⟨-, before', entry', shared', position', above', inCommon', nonempty', term'⟩
  · exact same' ▸ near.symm
  -- Each of the two changes is preceded, in the common part, by an entry of its own term, so
  -- their terms are equal and log matching puts one of them into the common part.
  have sameTerm : P.term entry = P.term entry' := le_antisymm
    (term ▸ lastTerm_le_of_prefix (rooted'.ordered branches) position' nonempty
      (inCommon.trans above'))
    (term' ▸ lastTerm_le_of_prefix (rooted.ordered branches) position nonempty' (inCommon'.trans above))
  rcases le_total before.length before'.length with shorter | longer
  · have inOther := rooted.matching rooted' position position' sameTerm shorter
    have := (greatest _ position inOther).length_le
    have := above.length_le
    simp at *
    omega
  have inOther := rooted'.matching rooted position' position sameTerm.symm longer
  have := (greatest _ inOther position').length_le
  have := above'.length_le
  simp at *
  omega

end IronCache.Consensus
