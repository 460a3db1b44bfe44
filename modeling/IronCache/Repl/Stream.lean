import IronCache.Repl.KvCodec
import IronCache.Repl.Ring
import IronCache.Store.Values

/-!
# The replication stream

The frames of `frames.rs`, the observer that feeds the ring, and the applier of the tail
(`ironcache-repl/src/stream.rs`).
-/

namespace IronCache.Repl

open Store Codec

inductive Frame where
  | replConf (node ack : ℕ) (resumeToken : Option Bytes)
  | replPing (replid : Bytes) (offset : ℕ)
  | fullSync (replid : Bytes) (endOffset : ℕ)
  | syncKv (db : ℕ) (key kvobjBytes : Bytes)
  | syncEnd (endOffset : ℕ)
  | streamPut (offset db : ℕ) (key kvobjBytes : Bytes)
  | streamDel (offset db : ℕ) (key : Bytes)
  | importReq (slot : ℕ)
deriving DecidableEq

def opToFrame : StreamOp → Frame
  | .put offset db key kvobjBytes => .streamPut offset db key kvobjBytes
  | .del offset db key => .streamDel offset db key

/-- What `ReplObserver` pushes for a write; the ring assigns the offset. -/
def observe : WriteEvent → StreamOp
  | .put db key entry => .put 0 db key (encodeKvobj entry.toKvobj)
  | .remove db key => .del 0 db key

/-- The image of the write is within the lengths the codec writes. -/
def FitsEvent : WriteEvent → Prop
  | .put _ _ entry => FitsObject entry.toKvobj
  | .remove _ _ => True

theorem AlikeColl.meaning (alike : AlikeColl left right) : left.meaning = right.meaning := by
  unfold AlikeColl at alike
  split at alike
  · rename_i left right
    obtain ⟨encoding, listed⟩ := alike
    have members : left.members.toFinset = right.members.toFinset := by
      ext member
      rw [List.mem_toFinset, List.mem_toFinset]
      exact listed member
    change Meaning.set _ _ = .set _ _
    rw [encoding, members]
  · rw [alike]

/-- An image is read back as an entry that reads the same. -/
theorem exists_decoded {entry : Entry} {key : Bytes} (formed : entry.Formed key)
    (fits : FitsObject entry.toKvobj) : ∃ object, decodeKvobj (encodeKvobj entry.toKvobj) = some object ∧
      (Entry.fromKvobj object).Formed key ∧ (Entry.fromKvobj object).reading = entry.reading := by
  obtain ⟨name, value, expireAt, freq⟩ := entry
  obtain ⟨rfl, sound⟩ := formed
  cases value with
  | str encoding bytes =>
    refine ⟨_, readAll_of_reads (reads_str sound rfl fits), ?_⟩
    rw [fromKvobj_fromBytes sound]
    exact ⟨⟨rfl, sound⟩, rfl⟩
  | coll value =>
    obtain ⟨alike, rebuilt⟩ := rebuildColl_alike sound fits.value
    refine ⟨_, readAll_of_reads (reads_coll name expireAt fits.key fits.deadline fits.value),
      ⟨rfl, rebuilt⟩, ?_⟩
    change Reading.mk (rebuildColl value).meaning expireAt = ⟨value.meaning, expireAt⟩
    rw [alike.meaning]

inductive ApplyOutcome where
  | applied (offset : ℕ)
  | duplicate
  | gap
deriving DecidableEq

/-- The applier of a replica with the store it writes to. -/
structure Replica (E : Type) where
  store : ShardStore E
  applied : ℕ

namespace Replica

variable {E : Type}

/-- The frame after the last applied one is applied, one before it is a duplicate, and any other
leaves a gap. -/
def inOrder (offset : ℕ) (next : Option (ShardStore E)) (replica : Replica E) : ApplyOutcome × Replica E :=
  if offset = replica.applied + 1 then
    match next with
    | some store => (.applied (replica.applied + 1), ⟨store, replica.applied + 1⟩)
    | none => (.gap, replica)
  else if offset ≤ replica.applied then (.duplicate, replica)
  else (.gap, replica)

variable [EvictionHook E]

def apply (frame : Frame) (now : ℕ) (replica : Replica E) : ApplyOutcome × Replica E :=
  match frame with
  | .streamPut offset db _ kvobjBytes =>
    replica.inOrder offset ((decodeKvobj kvobjBytes).map (replica.store.insertObject db ·))
  | .streamDel offset db key =>
    replica.inOrder offset (some (replica.store.delete db key now).2)
  | _ => (.applied replica.applied, replica)

omit [EvictionHook E] in
theorem inOrder_next (next : ShardStore E) (replica : Replica E) :
    replica.inOrder (replica.applied + 1) (some next) =
      (.applied (replica.applied + 1), ⟨next, replica.applied + 1⟩) := by
  unfold inOrder
  rw [if_pos rfl]

variable {offset : ℕ} {replica : Replica E}

omit [EvictionHook E] in
/-- Only the next frame is applied. -/
theorem inOrder_other (other : offset ≠ replica.applied + 1) (next : Option (ShardStore E)) :
    (replica.inOrder offset next).2 = replica := by
  unfold inOrder
  rw [if_neg other]
  split <;> rfl

omit [EvictionHook E] in
theorem inOrder_duplicate (old : offset ≤ replica.applied) (next : Option (ShardStore E)) :
    replica.inOrder offset next = (.duplicate, replica) := by
  unfold inOrder
  rw [if_neg (by omega), if_pos old]

omit [EvictionHook E] in
private theorem inOrder_store : (replica.inOrder offset next).2.store = replica.store ∨
      ∃ store, next = some store ∧ (replica.inOrder offset next).2.store = store := by
  by_cases due : offset = replica.applied + 1
  · subst due
    cases next with
    | none =>
      unfold inOrder
      exact .inl (by rw [if_pos rfl])
    | some store => exact .inr ⟨store, rfl, by rw [inOrder_next]⟩
  · exact .inl (by rw [inOrder_other due])

/-- What a frame may do to the store: the one write or removal that it carries. -/
theorem apply_store (frame : Frame) (now : ℕ) (replica : Replica E) :
    (replica.apply frame now).2.store = replica.store ∨
      (∃ offset db key kvobjBytes object, frame = .streamPut offset db key kvobjBytes ∧
        decodeKvobj kvobjBytes = some object ∧
          (replica.apply frame now).2.store = replica.store.insertObject db object) ∨
      ∃ offset db key, frame = .streamDel offset db key ∧
        (replica.apply frame now).2.store = (replica.store.delete db key now).2 := by
  cases frame with
  | streamPut offset db key kvobjBytes =>
    rcases inOrder_store
      with same | ⟨store, written, next⟩
    · exact .inl same
    · obtain ⟨object, decoded, rfl⟩ := Option.map_eq_some_iff.1 written
      exact .inr (.inl ⟨offset, db, key, kvobjBytes, object, rfl, decoded, next⟩)
  | streamDel offset db key =>
    rcases inOrder_store with
      same | ⟨store, written, next⟩
    · exact .inl same
    · cases written
      exact .inr (.inr ⟨offset, db, key, rfl, next⟩)
  | _ => exact .inl rfl

end Replica

end IronCache.Repl

namespace IronCache.Store.ShardStore

variable {E : Type} [EvictionHook E]

variable {store : ShardStore E} {key : Bytes}

theorem contents_delete_absent (found : store.find (store.dbIndex db) key = none) :
    (store.delete db key now).2.contents =
      Function.update store.contents (store.dbIndex db, key) none := by
  have kept : store.delete db key now = (false, store) := by
    simp [delete, expireIfDue, found]
  rw [kept]
  refine (Function.update_eq_self_iff.mpr ?_).symm
  unfold contents
  rw [found]
  rfl

theorem contents_delete_live (present : 0 < store.databases)
    (found : store.find (store.dbIndex db) key = some entry) (live : entry.isExpired now = false) :
    (store.delete db key now).2.contents =
      Function.update store.contents (store.dbIndex db, key) none := by
  rw [← contents_removeObject present found]
  unfold delete
  dsimp only
  rw [expireIfDue_of_live found live]
  rfl

/-- A delete on a passive store: a due entry stays, any other is gone. -/
theorem delete_passive (present : 0 < store.databases) (passive : store.passive = true) (db : ℕ)
    (key : Bytes) (now : ℕ) :
    (∃ entry, store.find (store.dbIndex db) key = some entry ∧ entry.isExpired now = true ∧
      (store.delete db key now).2 = store) ∨
    (∀ entry, store.find (store.dbIndex db) key = some entry → entry.isExpired now = false) ∧
      (store.delete db key now).2.contents =
        Function.update store.contents (store.dbIndex db, key) none := by
  cases found : store.find (store.dbIndex db) key with
  | none => exact .inr ⟨by simp, contents_delete_absent found⟩
  | some entry =>
    cases due : entry.isExpired now with
    | true =>
      refine .inl ⟨entry, rfl, due, ?_⟩
      simp [delete, expireIfDue_of_due found due, passive]
    | false =>
      refine .inr ⟨fun _ same => Option.some.inj same ▸ due, ?_⟩
      exact contents_delete_live present found due

/-- A delete on a store that is not passive: the key is gone, due or not. -/
theorem delete_active (present : 0 < store.databases) (active : store.passive = false) :
    (store.delete db key now).2.contents =
      Function.update store.contents (store.dbIndex db, key) none := by
  cases found : store.find (store.dbIndex db) key with
  | none => exact contents_delete_absent found
  | some entry =>
    cases due : entry.isExpired now with
    | true =>
      rw [← contents_removeObject present found]
      unfold delete
      dsimp only
      rw [expireIfDue_of_due found due, active]
      rfl
    | false => exact contents_delete_live present found due

end IronCache.Store.ShardStore
