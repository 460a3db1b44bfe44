import IronCache.Store.Observed

/-!
# What a reader sees

A stored entry as its readers tell it apart.
-/

namespace IronCache.Store

inductive Meaning where
  | str (encoding : Encoding) (bytes : Bytes)
  | list (value : ListVal)
  | hash (value : HashVal)
  | set (encoding : Encoding) (members : Finset Bytes)
  | zset (value : ZSetVal)
deriving DecidableEq

def CollVal.meaning : CollVal → Meaning
  | .list value => .list value
  | .hash value => .hash value
  | .set value => .set value.encoding value.members.toFinset
  | .zset value => .zset value

def Value.meaning : Value → Meaning
  | .str encoding bytes => .str encoding bytes
  | .coll value => value.meaning

namespace Meaning

def dataType : Meaning → DataType
  | .str _ _ => .string
  | .list _ => .list
  | .hash _ => .hash
  | .set _ _ => .set
  | .zset _ => .zset

def encoding : Meaning → Encoding
  | .str encoding _ => encoding
  | .list value => value.encoding
  | .hash value => value.encoding
  | .set encoding _ => encoding
  | .zset value => value.encoding

def strValueBytes : Meaning → Bytes
  | .str _ bytes => bytes
  | _ => []

def logicalLen : Meaning → ℕ
  | .str _ bytes => bytes.length
  | .list value => value.elementBytes
  | .hash value => value.elementBytes
  | .set _ members => ∑ member ∈ members, member.length
  | .zset value => value.elementBytes

end Meaning

theorem SetVal.elementBytes_eq {set : SetVal} (sound : set.Sound) :
    set.elementBytes = ∑ member ∈ set.members.toFinset, member.length := by
  rw [List.sum_toFinset _ (members_nodup sound)]
  cases set with
  | intSet numbers =>
    unfold elementBytes members
    rw [List.map_map]
    rfl
  | listPack members => rfl
  | hashTable members =>
    exact ((scanSort_perm.map List.length).sum_eq).symm

theorem Value.logicalLen_eq {value : Value} (sound : value.Sound) :
    value.logicalLen = value.meaning.logicalLen := by
  cases value with
  | str encoding bytes => rfl
  | coll value =>
    cases value with
    | set value => exact SetVal.elementBytes_eq sound
    | _ => rfl

/-- What a read of an entry tells. -/
structure Reading where
  meaning : Meaning
  expireAt : Option ℕ
deriving DecidableEq

def Reading.isExpired (reading : Reading) (now : ℕ) : Bool := reading.expireAt.any (· < now)

/-- The header and bytes that a closure is shown. -/
def Reading.occupied (reading : Reading) : OccupiedEntry :=
  ⟨reading.meaning.dataType, reading.meaning.encoding, reading.expireAt, reading.meaning.strValueBytes⟩

def Entry.reading (entry : Entry) : Reading := ⟨entry.value.meaning, entry.expireAt⟩

theorem Entry.occupied_eq (entry : Entry) : entry.occupied = entry.reading.occupied := by
  obtain ⟨key, value, expireAt, freq⟩ := entry
  cases value with
  | str encoding bytes => rfl
  | coll value => cases value <;> rfl

/-- What is left of a resident reading once its deadline has passed. -/
def unexpired (now : ℕ) (resident : Option Reading) : Option Reading :=
  resident.filter (!·.isExpired now)

/-- What is due stays due. -/
theorem unexpired_eq_none (passed : now ≤ later) (due : unexpired now resident = none) :
    unexpired later resident = none := by
  cases resident with
  | none => rfl
  | some reading =>
    obtain ⟨meaning, expireAt⟩ := reading
    cases expireAt with
    | none => cases due
    | some deadline =>
      simp only [unexpired, Reading.isExpired, Option.any_some, Option.filter_some,
        Bool.not_eq_true', decide_eq_false_iff_not, not_lt, ite_eq_right_iff,
        reduceCtorEq, imp_false, not_le] at due ⊢
      exact due.trans_le passed

/-- The event as a change of what is read. -/
def WriteEvent.seen (databases : ℕ) (event : WriteEvent) : Change (ℕ × Bytes) Reading :=
  (event.change databases).map Entry.reading

theorem WriteEvent.seen_inside (present : 0 < databases) (event : WriteEvent) :
    (event.seen databases).key.1 < databases := by
  have clamped : ∀ db, min db (databases - 1) < databases := fun db => by omega
  cases event <;> exact clamped _

namespace ShardStore

variable {E : Type}

/-- The resident entries by table and key, as readings. -/
def readings (store : ShardStore E) (place : ℕ × Bytes) : Option Reading :=
  (store.contents place).map Entry.reading

def peek (store : ShardStore E) (db : ℕ) (key : Bytes) (now : ℕ) : Option Reading :=
  (store.readings (store.dbIndex db, key)).filter (!·.isExpired now)

variable {store : ShardStore E} {place : ℕ × Bytes}

theorem readings_of_find (found : store.find idx key = some entry) :
    store.readings (idx, key) = some entry.reading := by
  unfold readings contents
  rw [found]
  rfl

theorem readings_outside (outside : ¬place.1 < store.databases) : store.readings place = none := by
  have absent : store.contents place = none :=
    Option.not_isSome_iff_eq_none.mp fun present => outside (inside_of_contents present)
  unfold readings
  rw [absent]
  rfl

theorem readings_update {next : ShardStore E} {image : Option Entry}
    (written : next.contents = Function.update store.contents place image) :
    next.readings = Function.update store.readings place (image.map Entry.reading) :=
  (congrArg (Option.map Entry.reading ∘ ·) written).trans (Function.comp_update _ _ _ _)

theorem read_eq_peek [EvictionHook E] :
    (store.read db key now).1 = (store.peek db key now).map Reading.occupied := by
  cases found : store.find (store.dbIndex db) key with
  | none =>
    have absent : store.expireIfDue db (store.dbIndex db) key now = (false, store) := by
      unfold expireIfDue
      rw [found]
    simp [read, absent, peek, readings, contents, found]
  | some entry =>
    by_cases due : entry.isExpired now = true
    · have missing : (store.expireIfDue db (store.dbIndex db) key now).1 = false := by
        rw [expireIfDue_of_due found due]
      have hidden : entry.bare.reading.isExpired now = true := due
      simp [read, missing, peek, readings, contents, found, hidden]
    have fresh : entry.isExpired now = false := Bool.eq_false_iff.mpr due
    have shown : entry.bare.reading.isExpired now = false := fresh
    unfold read
    dsimp only
    rw [expireIfDue_of_live found fresh]
    simp only [peek, readings, contents, found, Option.map_some, Option.filter_some, shown,
      Bool.not_false, if_true]
    exact congrArg some entry.occupied_eq

end ShardStore

end IronCache.Store
