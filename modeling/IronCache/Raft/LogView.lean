import IronCache.Raft.Node

/-!
# The whole log behind a compacted storage

`Represents` relates a storage to the whole log, the compacted part included.
-/

namespace IronCache.Raft

open List

/-- The term of a log's last entry, zero for the empty log. -/
def lastTerm (log : List LogEntry) : ℕ := log.getLast?.elim 0 (·.term)

@[simp]
theorem lastTerm_nil : lastTerm [] = 0 := rfl

@[simp]
theorem lastTerm_concat (log : List LogEntry) (entry : LogEntry) :
    lastTerm (log ++ [entry]) = entry.term := by
  simp [lastTerm]

theorem lastTerm_take_succ {log : List LogEntry} (found : log[position]? = some entry) :
    lastTerm (log.take (position + 1)) = entry.term := by
  rw [take_add_one, found]
  exact lastTerm_concat _ _

namespace MemStorage

/-- The index up to which the log has been compacted. -/
def snapIndex (storage : MemStorage) : ℕ := storage.snapMeta.elim 0 (·.lastIncludedIndex)

variable {storage : MemStorage}

theorem loadSnapshot_eq_some : storage.loadSnapshot = some (snapshot, data) ↔
      storage.snapMeta = some snapshot ∧ storage.snapData = data := by
  simp [loadSnapshot, Option.map_eq_some_iff]

theorem loadSnapshot_eq_none : storage.loadSnapshot = none ↔ storage.snapMeta = none := by
  simp [loadSnapshot]

theorem loadSnapshot_index : storage.loadSnapshot.elim 0 (·.1.lastIncludedIndex) = storage.snapIndex := by
  unfold loadSnapshot snapIndex
  cases storage.snapMeta <;> rfl

theorem snapIndex_of_some (found : storage.snapMeta = some snapshot) :
    storage.snapIndex = snapshot.lastIncludedIndex := by
  simp [snapIndex, found]

theorem snapIndex_of_none (found : storage.snapMeta = none) : storage.snapIndex = 0 := by
  simp [snapIndex, found]

end MemStorage

/-- The storage holds exactly the part of the log above its snapshot. -/
structure Represents (storage : MemStorage) (log : List LogEntry) : Prop where
  start : storage.start = storage.snapIndex + 1
  entries : storage.log = log.drop storage.snapIndex
  bound : storage.snapIndex ≤ log.length
  snapshot : ∀ snapshot, storage.snapMeta = some snapshot → 0 < snapshot.lastIncludedIndex ∧
      snapshot.lastIncludedTerm = lastTerm (log.take snapshot.lastIncludedIndex)
  indexed : ∀ position entry, log[position]? = some entry → entry.index = position + 1
  positive : ∀ entry ∈ log, 0 < entry.term

namespace Represents

theorem initial : Represents {} [] where
  start := rfl
  entries := rfl
  bound := le_rfl
  snapshot := nofun
  indexed := by simp
  positive := by simp

variable {storage : MemStorage} {log : List LogEntry}

section

variable (view : Represents storage log)
include view

theorem length : storage.log.length = log.length - storage.snapIndex := by
  rw [view.entries, length_drop]

theorem lastIndex : storage.lastLogIndex = log.length := by
  have bound := view.bound
  unfold MemStorage.lastLogIndex
  rcases eq_nil_or_concat storage.log with empty | ⟨front, entry, split⟩
  · have := view.length
    simp only [empty, getLast?_nil, length_nil] at this ⊢
    change storage.snapIndex = log.length
    omega
  have whole : log = log.take storage.snapIndex ++ (front ++ [entry]) := by
    rw [← concat_eq_append, ← split, view.entries, take_append_drop]
  have taken : (log.take storage.snapIndex).length = storage.snapIndex :=
    length_take_of_le bound
  have position : log[storage.snapIndex + front.length]? = some entry := by
    rw [whole, getElem?_append_right (by omega), taken]
    simp
  have total : log.length = storage.snapIndex + front.length + 1 := by
    conv_lhs => rw [whole]
    simp [taken]
    omega
  rw [split, concat_eq_append, getLast?_concat]
  exact (view.indexed _ _ position).trans total.symm

theorem lastTerm : storage.lastLogTerm = Raft.lastTerm log := by
  unfold MemStorage.lastLogTerm
  rcases eq_nil_or_concat storage.log with empty | ⟨front, entry, split⟩
  · have size := view.length
    simp only [empty, getLast?_nil, length_nil] at size ⊢
    have whole : log.take storage.snapIndex = log := take_of_length_le (by omega)
    cases snap : storage.snapMeta with
    | none =>
      have none := MemStorage.snapIndex_of_none snap
      rw [none, take_zero] at whole
      simp [← whole]
    | some snapshot =>
      have index := MemStorage.snapIndex_of_some snap
      rw [index] at whole
      simpa [whole] using (view.snapshot snapshot snap).2
  · have whole : log = log.take storage.snapIndex ++ front ++ [entry] := by
      rw [append_assoc, ← concat_eq_append, ← split, view.entries, take_append_drop]
    rw [split, concat_eq_append, getLast?_concat, whole, lastTerm_concat]

private theorem posOf (above : storage.snapIndex < index) (within : index ≤ log.length) :
    storage.posOf index = some (index - storage.snapIndex - 1) := by
  have size := view.length
  unfold MemStorage.posOf
  rw [view.start, if_neg (by omega), if_pos (by omega)]
  simp
  omega

theorem posOf_none (outside : index ≤ storage.snapIndex ∨ log.length < index) :
    storage.posOf index = none := by
  have size := view.length
  unfold MemStorage.posOf
  rw [view.start]
  split_ifs <;> first | rfl | omega

theorem entryAt (above : storage.snapIndex < index) (within : index ≤ log.length) :
    storage.entryAt index = log[index - 1]? := by
  unfold MemStorage.entryAt
  rw [if_neg (by omega), view.posOf above within, Option.bind_some, view.entries, getElem?_drop]
  congr 1
  omega

theorem entryAt_none (outside : index ≤ storage.snapIndex ∨ log.length < index) :
    storage.entryAt index = none := by
  unfold MemStorage.entryAt
  rw [view.posOf_none outside]
  split_ifs <;> rfl

private theorem logTermAt (above : storage.snapIndex < index) (within : index ≤ log.length) :
    storage.logTermAt index = Raft.lastTerm (log.take index) := by
  obtain ⟨position, rfl⟩ : ∃ position, index = position + 1 := ⟨index - 1, by omega⟩
  have found : log[position]? = some log[position] := getElem?_eq_getElem (by omega)
  have stored := view.entryAt above within
  rw [Nat.add_sub_cancel] at stored
  unfold MemStorage.entryAt at stored
  rw [if_neg (by omega)] at stored
  rw [MemStorage.logTermAt, stored, found, lastTerm_take_succ found, Option.elim_some]

/-- At and above the snapshot, up to the end, the storage knows the log's terms. -/
theorem termAt (above : storage.snapIndex ≤ index) (within : index ≤ log.length) :
    storage.termAt index = Raft.lastTerm (log.take index) := by
  unfold MemStorage.termAt
  split_ifs with zero
  · simp [zero]
  cases snap : storage.snapMeta with
  | none =>
    refine view.logTermAt ?_ within
    have := MemStorage.snapIndex_of_none snap
    omega
  | some snapshot =>
    have snapIndex := MemStorage.snapIndex_of_some snap
    simp only
    split_ifs with same
    · rw [(view.snapshot snapshot snap).2, same]
    · exact view.logTermAt (by omega) within

theorem termAt_none (outside : index < storage.snapIndex ∨ log.length < index) :
    storage.termAt index = 0 := by
  have bound := view.bound
  have missing : storage.logTermAt index = 0 := by
    rw [MemStorage.logTermAt, view.posOf_none (by omega)]
    rfl
  unfold MemStorage.termAt
  split_ifs with zero
  · rfl
  cases snap : storage.snapMeta with
  | none => exact missing
  | some snapshot =>
    have snapIndex := MemStorage.snapIndex_of_some snap
    simp only
    rw [if_neg (by omega), missing]

theorem entriesFrom (above : storage.snapIndex < index) :
    storage.entriesFrom index = log.drop (index - 1) := by
  unfold MemStorage.entriesFrom
  rw [view.start, view.entries, drop_drop]
  congr 1
  omega

theorem setCurrentTerm (term : ℕ) : Represents (storage.setCurrentTerm term) log := { view with }

theorem setVotedFor (vote : Option NodeId) : Represents (storage.setVotedFor vote) log := { view with }

theorem saveConfigBaseline (voters learners : NodeSet) :
    Represents (storage.saveConfigBaseline voters learners) log := { view with }

theorem appendEntries
    (indexed : ∀ position entry, (log ++ suffix)[position]? = some entry → entry.index = position + 1)
    (positive : ∀ entry ∈ suffix, 0 < entry.term) :
    Represents (storage.appendEntries suffix) (log ++ suffix) where
  start := view.start
  entries := by
    change storage.log ++ suffix = (log ++ suffix).drop storage.snapIndex
    rw [drop_append_of_le_length view.bound, view.entries]
  bound := by
    have : storage.snapIndex ≤ log.length := view.bound
    change storage.snapIndex ≤ (log ++ suffix).length
    rw [length_append]
    omega
  snapshot := fun snapshot found => by
    obtain ⟨above, term⟩ := view.snapshot snapshot found
    refine ⟨above, term.trans ?_⟩
    have bound := view.bound
    have index : storage.snapIndex = snapshot.lastIncludedIndex :=
      MemStorage.snapIndex_of_some found
    rw [take_append_of_le_length (by omega)]
  indexed := indexed
  positive := fun entry member =>
    (mem_append.mp member).elim (view.positive entry) (positive entry)

theorem append (index : entry.index = log.length + 1) (positive : 0 < entry.term) :
    Represents (storage.append entry) (log ++ [entry]) := by
  refine view.appendEntries (fun position other found => ?_) (by simpa using positive)
  rcases Nat.lt_or_ge position log.length with inside | outside
  · rw [getElem?_append_left inside] at found
    exact view.indexed position other found
  rw [getElem?_append_right outside, getElem?_singleton] at found
  split_ifs at found with last
  obtain rfl := Option.some.inj found
  omega

theorem truncateFrom (above : storage.snapIndex < index) :
    Represents (storage.truncateFrom index) (log.take (index - 1)) := by
  have keep : (if index ≤ storage.start then 0 else index - storage.start) =
      index - 1 - storage.snapIndex := by
    rw [view.start]
    split_ifs <;> omega
  have result : storage.truncateFrom index =
      { storage with log := storage.log.take (index - 1 - storage.snapIndex) } := by
    simp only [MemStorage.truncateFrom, keep]
    split_ifs with shorter
    · rfl
    · rw [take_of_length_le (by omega)]
  rw [result]
  have bound := view.bound
  refine
    { start := view.start
      entries := ?_
      bound := ?_
      snapshot := fun snapshot found => ?_
      indexed := fun position entry found => ?_
      positive := fun entry member => view.positive entry (mem_of_mem_take member) }
  · change storage.log.take _ = (log.take (index - 1)).drop storage.snapIndex
    rw [view.entries, drop_take]
  · change storage.snapIndex ≤ (log.take (index - 1)).length
    rw [length_take]
    omega
  · obtain ⟨positive, term⟩ := view.snapshot snapshot found
    have snapIndex : storage.snapIndex = snapshot.lastIncludedIndex :=
      MemStorage.snapIndex_of_some found
    rw [take_take, min_eq_left (by omega)]
    exact ⟨positive, term⟩
  · rw [getElem?_take] at found
    split_ifs at found
    exact view.indexed position entry found

/-- Saving a snapshot of a prefix and compacting to it leaves the whole log as it is. -/
theorem compact (above : storage.snapIndex < index) (within : index ≤ log.length) (data : List UInt8) :
    Represents ((storage.saveSnapshot ⟨index, Raft.lastTerm (log.take index)⟩ data).compactTo index)
      log := by
  have size := view.length
  have start := view.start
  have result : (storage.saveSnapshot ⟨index, Raft.lastTerm (log.take index)⟩ data).compactTo index =
      { storage with
        log := storage.log.drop (index - storage.snapIndex)
        logStart := index + 1
        snapMeta := some ⟨index, Raft.lastTerm (log.take index)⟩
        snapData := data } := by
    change (if index < storage.start ∨ index = 0 then _ else _) = _
    rw [if_neg (by omega)]
    change ({ storage with
      log := storage.log.drop (min (index - storage.start + 1) storage.log.length)
      logStart := index + 1
      snapMeta := _
      snapData := data } : MemStorage) = _
    rw [min_eq_left (by omega), start, show index - (storage.snapIndex + 1) + 1 =
      index - storage.snapIndex by omega]
    rfl
  rw [result]
  exact
    { start := by simp [MemStorage.start, MemStorage.snapIndex]
      entries := by
        change storage.log.drop (index - storage.snapIndex) = log.drop index
        rw [view.entries, drop_drop]
        congr 1
        omega
      bound := within
      snapshot := fun snapshot found => by
        obtain rfl := Option.some.inj found
        exact ⟨by simp only; omega, rfl⟩
      indexed := view.indexed
      positive := view.positive }

/-- Discarding the stored part and installing a snapshot leaves the snapshot's log. -/
theorem install (above : storage.snapIndex < taken.length) (data : List UInt8)
    (indexed : ∀ position entry, taken[position]? = some entry → entry.index = position + 1)
    (positive : ∀ entry ∈ taken, 0 < entry.term) :
    Represents (((storage.truncateFrom storage.logStartIndex).saveSnapshot
        ⟨taken.length, Raft.lastTerm taken⟩ data).compactTo taken.length) taken := by
  have cleared : storage.truncateFrom storage.logStartIndex = { storage with log := [] } := by
    simp only [MemStorage.truncateFrom, MemStorage.logStartIndex, le_refl, if_true, take_zero]
    split_ifs with nonempty
    · rfl
    · have empty : storage.log = [] := length_eq_zero_iff.mp (by omega)
      rw [← empty]
  have start := view.start
  have result : (({ storage with log := [] } : MemStorage).saveSnapshot
      ⟨taken.length, Raft.lastTerm taken⟩ data).compactTo taken.length =
      { storage with
        log := []
        logStart := taken.length + 1
        snapMeta := some ⟨taken.length, Raft.lastTerm taken⟩
        snapData := data } := by
    change (if taken.length < storage.start ∨ taken.length = 0 then _ else _) = _
    rw [if_neg (by omega)]
    simp [MemStorage.saveSnapshot]
  rw [cleared, result]
  exact
    { start := by simp [MemStorage.start, MemStorage.snapIndex]
      entries := by simp [MemStorage.snapIndex]
      bound := le_rfl
      snapshot := fun snapshot found => by
        obtain rfl := Option.some.inj found
        exact ⟨by simp only; omega, by simp⟩
      indexed
      positive }

end

end Represents

/-- The voters and learners a log prescribes, from the voters the cluster was built with. -/
def members (seed : NodeSet) (log : List LogEntry) : NodeSet × NodeSet :=
  log.foldl applyEntryDelta (seed, ∅)

@[simp]
theorem members_append (seed : NodeSet) (log tail : List LogEntry) :
    members seed (log ++ tail) = tail.foldl applyEntryDelta (members seed log) :=
  foldl_append

/-- Replaying the surviving entries over the snapshot's membership gives the log's. -/
theorem Represents.configThrough (view : Represents storage log) (seed : NodeSet)
    (above : storage.snapIndex ≤ last) (within : last ≤ log.length) :
    storage.configThrough (members seed (log.take storage.snapIndex)) last =
      members seed (log.take last) := by
  unfold MemStorage.configThrough MemStorage.logStartIndex
  rw [view.start, Nat.add_sub_add_right]
  obtain ⟨count, rfl⟩ := Nat.exists_eq_add_of_le above
  rw [Nat.add_sub_cancel_left]
  induction count with
  | zero => simp
  | succ count ih =>
    have position : storage.snapIndex + count < log.length := by omega
    have found : log[storage.snapIndex + count]? = some log[storage.snapIndex + count] :=
      getElem?_eq_getElem position
    have read : storage.entryAt (storage.snapIndex + 1 + count) = some log[storage.snapIndex + count] := by
      rw [view.entryAt (by omega) (by omega), ← found]
      congr 1
      omega
    rw [range'_concat, foldl_append, ih (by omega) (by omega), Nat.one_mul,
      ← Nat.add_assoc, take_add_one, found, members_append]
    simp [read]

end IronCache.Raft
