import IronCache.Store.Watch

/-!
# Calls on one key

What a call on one key leaves alone.
-/

namespace IronCache.Store.ShardStore

variable {E : Type} {store middle next : ShardStore E} {idx : ℕ} {key : Bytes} {keys : List Bytes}

/-- No entry under another key than these has changed, in any database. -/
def Apart (keys : List Bytes) (store next : ShardStore E) : Prop :=
  ∀ idx other, other ∉ keys → next.find idx other = store.find idx other

theorem Apart.trans (first : Apart keys store middle) (second : Apart keys middle next) :
    Apart keys store next :=
  fun idx other away => (second idx other away).trans (first idx other away)

theorem Apart.mono (apart : Apart keys store next) (inside : keys ⊆ others) : Apart others store next :=
  fun idx other away => apart idx other fun member => away (inside member)

theorem Apart.of_dbs (same : next.dbs = store.dbs) : Apart keys store next := by
  intro idx other away
  unfold find table
  rw [same]

theorem apart_setTable {entries : OrdMap Bytes Entry}
    (same : ∀ other, other ≠ key → entries.get? other = (store.table idx).get? other) :
    Apart [key] store (store.setTable idx entries) := by
  intro db other away
  rcases Nat.lt_or_ge idx store.databases with inside | beyond
  · rw [find_setTable _ _ _ _ _ inside]
    split_ifs with here
    · rw [here]
      exact same other fun named => away (List.mem_singleton.mpr named)
    · rfl
  · have whole : Apart [key] store (store.setTable idx entries) := .of_dbs (List.set_eq_of_length_le beyond)
    exact whole db other away

theorem apart_setEntry (entry : Entry) : Apart [key] store (store.setEntry idx key entry) :=
  apart_setTable fun other away => by rw [OrdMap.get?_insert, if_neg away]

theorem apart_setEntryExpire (deadline : Option ℕ) :
    Apart [key] store (store.setEntryExpire idx key deadline) := by
  unfold setEntryExpire
  split
  · exact apart_setEntry _
  · exact .of_dbs rfl

private theorem apart_retime (old new : Option ℕ) : Apart [key] store (store.retime db idx key old new) := by
  unfold retime
  split
  · exact .of_dbs rfl
  · exact (Apart.of_dbs (dbs_touchWatch db key store)).trans
      ((apart_setEntryExpire new).trans (.of_dbs dbs_observePut))

variable [EvictionHook E]

theorem apart_removeObjectCrediting (bytes : ℕ) :
    Apart [key] store (store.removeObjectCrediting db idx key bytes).2 := by
  have watched : Apart [key] store (store.touchWatch db key) := .of_dbs (dbs_touchWatch db key store)
  unfold removeObjectCrediting
  dsimp only
  split
  · refine watched.trans (apart_setTable fun other away => ?_)
    rw [OrdMap.get?_erase, if_neg away]
  · exact watched

theorem apart_putObject (entry : Entry) : Apart [key] store (store.putObject db idx key entry).2 := by
  have watched : Apart [key] store (store.touchWatch db key) := .of_dbs (dbs_touchWatch db key store)
  unfold putObject
  dsimp only
  split
  · exact watched.trans ((apart_setEntry _).trans (.of_dbs dbs_observePut))
  · exact watched.trans ((apart_setEntry _).trans (.of_dbs dbs_observePut))

theorem apart_expireIfDue (now : ℕ) : Apart [key] store (store.expireIfDue db idx key now).2 := by
  have removed : Apart [key] store (store.removeObject db idx key).2 := by
    rw [removeObject_eq]
    exact apart_removeObjectCrediting _
  unfold expireIfDue
  split
  · split
    · split
      · exact .of_dbs rfl
      dsimp only
      split
      · exact removed.trans (.of_dbs rfl)
      · exact removed
    · exact .of_dbs rfl
  · exact .of_dbs rfl

private theorem apart_commitEdit (oldBytes : ℕ) (edited : Entry) (old new : Option ℕ) :
    Apart [key] store (store.commitEdit db idx key oldBytes edited old new) := by
  unfold commitEdit
  split
  · exact apart_removeObjectCrediting oldBytes
  have watched : Apart [key] store (store.touchWatch db key) := .of_dbs (dbs_touchWatch db key store)
  refine watched.trans (.trans ?_ (.of_dbs dbs_observePut))
  split
  · split <;> exact .of_dbs rfl
  · refine .trans ?_ (apart_setEntryExpire new)
    split <;> exact .of_dbs rfl

/-- Whatever the closure answers. -/
theorem apart_rmwMut (f : Option OccupiedEntryMut → List CollEdit × RmwStep R) :
    Apart [key] store (store.rmwMut db key now f).2 := by
  unfold rmwMut
  dsimp only
  have due : Apart [key] store (store.expireIfDue db (store.dbIndex db) key now).2 := apart_expireIfDue now
  refine due.trans ?_
  split
  · dsimp only
    split
    · exact .of_dbs rfl
    · exact .of_dbs rfl
    · exact .of_dbs rfl
    · exact apart_putObject _
    · exact apart_putObject _
  · dsimp only
    split
    · exact (apart_setEntry _).trans (apart_retime _ _)
    · exact (apart_setEntry _).trans (apart_putObject _)
    · exact (apart_setEntry _).trans (apart_putObject _)
    · exact (apart_setEntry _).trans (apart_removeObjectCrediting _)
    · exact (apart_setEntry _).trans (apart_commitEdit _ _ _ _)

end IronCache.Store.ShardStore
