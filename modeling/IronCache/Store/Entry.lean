import IronCache.Store.HashVal
import IronCache.Store.SetVal
import IronCache.Store.ZSetVal

/-!
# Entries

The stored entry as a plain record, and the object `KvObj`, from `ironcache-store/src/kvobj.rs`.
-/

namespace IronCache.Store

/-- A collection of one of the four types. -/
inductive CollVal where
  | list (value : ListVal)
  | hash (value : HashVal)
  | set (value : SetVal)
  | zset (value : ZSetVal)
deriving DecidableEq

/-- A write to a collection. -/
inductive CollEdit where
  | list (edit : ListEdit)
  | hash (edit : HashEdit)
  | set (edit : SetEdit)
  | zset (edit : ZSetEdit)

namespace CollVal

def dataType : CollVal → DataType
  | .list _ => .list
  | .hash _ => .hash
  | .set _ => .set
  | .zset _ => .zset

def encoding : CollVal → Encoding
  | .list value => value.encoding
  | .hash value => value.encoding
  | .set value => value.encoding
  | .zset value => value.encoding

def elementBytes : CollVal → ℕ
  | .list value => value.elementBytes
  | .hash value => value.elementBytes
  | .set value => value.elementBytes
  | .zset value => value.elementBytes

def len : CollVal → ℕ
  | .list value => value.len
  | .hash value => value.len
  | .set value => value.len
  | .zset value => value.len

/-- A mutation reaches a value of its own type only. -/
def edit : CollVal → CollEdit → CollVal
  | .list value, .list edit => .list (value.edit edit)
  | .hash value, .hash edit => .hash (value.edit edit)
  | .set value, .set edit => .set (value.edit edit)
  | .zset value, .zset edit => .zset (value.edit edit)
  | value, _ => value

/-- Every collection keeps the invariant of its type. -/
def Sound : CollVal → Prop
  | .list value => value.Sound
  | .hash value => value.Sound
  | .set value => value.Sound
  | .zset value => value.Sound

theorem Sound.edit (sound : Sound value) (edit : CollEdit) : Sound (value.edit edit) := by
  cases value with
  | list value =>
    cases edit with
    | list edit => exact ListVal.Sound.edit sound edit
    | _ => exact sound
  | hash value =>
    cases edit with
    | hash edit => exact HashVal.Sound.edit sound edit
    | _ => exact sound
  | set value =>
    cases edit with
    | set edit => exact SetVal.Sound.edit sound edit
    | _ => exact sound
  | zset value =>
    cases edit with
    | zset edit => exact ZSetVal.Sound.edit sound edit
    | _ => exact sound

end CollVal

/-- A value to be written: a string or an integer, or the contents of a collection. -/
inductive NewValueOwned where
  | int (number : ℤ)
  | bytes (bytes : Bytes)
  | list (elems : List Bytes)
  | hash (pairs : List (Bytes × Bytes))
  | hashEx (pairs : List (Bytes × Bytes)) (ttls : List (Bytes × ℕ))
  | set (members : List Bytes)
  | zset (pairs : List (Bytes × F64))

/-- A hash created with the deadlines of those fields that it has. -/
def HashVal.fromPairsEx (thresholds : EncodingThresholds) (pairs : List (Bytes × Bytes))
    (ttls : List (Bytes × ℕ)) : HashVal :=
  ttls.foldl (fun hash ttl => if hash.contains ttl.1 then hash.setFieldTtl ttl.1 ttl.2 else hash)
    (fromPairs thresholds pairs)

theorem HashVal.sound_fromPairsEx (pairs : List (Bytes × Bytes)) (ttls : List (Bytes × ℕ)) :
    Sound (fromPairsEx thresholds pairs ttls) := by
  unfold fromPairsEx
  generalize fromPairs thresholds pairs = hash, sound_fromPairs thresholds pairs = sound
  induction ttls generalizing hash with
  | nil => exact sound
  | cons ttl ttls ih =>
    rw [List.foldl_cons]
    apply ih
    split_ifs
    · exact sound.setFieldTtl ttl.1 ttl.2
    · exact sound

/-- What an entry holds: a string under its encoding, or a collection. -/
inductive Value where
  | str (encoding : Encoding) (bytes : Bytes)
  | coll (value : CollVal)
deriving DecidableEq

namespace Value

def dataType : Value → DataType
  | .str _ _ => .string
  | .coll value => value.dataType

def encoding : Value → Encoding
  | .str encoding _ => encoding
  | .coll value => value.encoding

/-- What the accounting counts of a value. -/
def logicalLen : Value → ℕ
  | .str _ bytes => bytes.length
  | .coll value => value.elementBytes

def isEmptyCollection : Value → Bool
  | .str _ _ => false
  | .coll value => value.len == 0

/-- A text that is a canonical integer is kept as one. -/
def ofBytes (bytes : Bytes) : Value :=
  match classify bytes with
  | .int number => .str .int (intDecimalBytes number)
  | .embStr => .str .embStr bytes
  | .raw => .str .raw bytes

def ofNew (thresholds : EncodingThresholds) : NewValueOwned → Value
  | .int number => .str .int (intDecimalBytes number)
  | .bytes bytes => ofBytes bytes
  | .list elems => .coll (.list (.fromElems thresholds elems))
  | .hash pairs => .coll (.hash (.fromPairs thresholds pairs))
  | .hashEx pairs ttls => .coll (.hash (.fromPairsEx thresholds pairs ttls))
  | .set members => .coll (.set (.fromMembers members thresholds))
  | .zset pairs => .coll (.zset (.fromPairs pairs thresholds))

end Value

/-- A stored entry: its key, value, deadline and access frequency. -/
structure Entry where
  key : Bytes
  value : Value
  expireAt : Option ℕ
  freq : ℕ := 0
deriving DecidableEq

namespace Entry

def dataType (entry : Entry) : DataType := entry.value.dataType

def encoding (entry : Entry) : Encoding := entry.value.encoding

variable (entry : Entry)

/-- The key and the value, without the overhead of either. -/
def accountedBytes : ℕ := entry.key.length + entry.value.logicalLen

/-- A deadline has passed only after its millisecond. -/
def isExpired (now : ℕ) : Bool := entry.expireAt.any (· < now)

def setExpireAt (expireAt : Option ℕ) : Entry := { entry with expireAt }

/-- The frequency saturates at 3. -/
def setFreq (freq : ℕ) : Entry := { entry with freq := min freq 3 }

def bumpFreq : Entry := entry.setFreq (entry.freq + 1)

def rekey (key : Bytes) : Entry := { entry with key }

def fromNewOwned (key : Bytes) (value : NewValueOwned) (expireAt : Option ℕ)
    (thresholds : EncodingThresholds) : Entry :=
  { key, value := .ofNew thresholds value, expireAt }

end Entry

/-- The value of an object outside the store. -/
inductive ValueRepr where
  | int (number : ℤ)
  | inline (bytes : Bytes)
  | raw (bytes : Bytes)
  | coll (value : CollVal)
deriving DecidableEq

namespace ValueRepr

def encoding : ValueRepr → Encoding
  | .int _ => .int
  | .inline _ => .embStr
  | .raw _ => .raw
  | .coll value => value.encoding

def ofBytes (bytes : Bytes) : ValueRepr :=
  match classify bytes with
  | .int number => .int number
  | .embStr => .inline bytes
  | .raw => .raw bytes

end ValueRepr

/-- The header carries the type and the encoding that the object reports. -/
structure KvObj where
  dataType : DataType
  encoding : Encoding
  key : Bytes
  value : ValueRepr
  expireAt : Option ℕ
deriving DecidableEq

namespace KvObj

def fromBytes (key bytes : Bytes) (expireAt : Option ℕ) : KvObj :=
  let value := ValueRepr.ofBytes bytes
  ⟨.string, value.encoding, key, value, expireAt⟩

def fromInt (key : Bytes) (number : ℤ) (expireAt : Option ℕ) : KvObj :=
  ⟨.string, .int, key, .int number, expireAt⟩

/-- `from_list`, `from_hash`, `from_set` and `from_zset`. -/
def fromColl (key : Bytes) (value : CollVal) (expireAt : Option ℕ) : KvObj :=
  ⟨value.dataType, value.encoding, key, .coll value, expireAt⟩

def fromNewOwned (key : Bytes) (value : NewValueOwned) (expireAt : Option ℕ)
    (thresholds : EncodingThresholds) : KvObj :=
  match value with
  | .int number => fromInt key number expireAt
  | .bytes bytes => fromBytes key bytes expireAt
  | .list elems => fromColl key (.list (.fromElems thresholds elems)) expireAt
  | .hash pairs => fromColl key (.hash (.fromPairs thresholds pairs)) expireAt
  | .hashEx pairs ttls => fromColl key (.hash (.fromPairsEx thresholds pairs ttls)) expireAt
  | .set members => fromColl key (.set (.fromMembers members thresholds)) expireAt
  | .zset pairs => fromColl key (.zset (.fromPairs pairs thresholds)) expireAt

end KvObj

/-- The entry that an object is stored as: the header's encoding counts for a string alone. -/
def Entry.fromKvobj (object : KvObj) : Entry :=
  { key := object.key
    value := match object.value with
      | .int number => .str .int (intDecimalBytes number)
      | .inline bytes | .raw bytes => .str object.encoding bytes
      | .coll value => .coll value
    expireAt := object.expireAt }

/-- The object that a snapshot ships. -/
def Entry.toKvobj (entry : Entry) : KvObj :=
  { dataType := entry.dataType
    encoding := entry.encoding
    key := entry.key
    value := match entry.value with
      | .str .int bytes =>
        match strParseI64 bytes with
        | some number => .int number
        | none => .raw bytes
      | .str .raw bytes => .raw bytes
      | .str _ bytes => .inline bytes
      | .coll value => .coll value
    expireAt := entry.expireAt }

/-- A string stands under the encoding its bytes classify as; a collection is sound. -/
def Value.Sound : Value → Prop
  | .str encoding bytes =>
    (classify bytes).encoding = encoding ∧
      ∀ number, classify bytes = .int number → intDecimalBytes number = bytes
  | .coll value => value.Sound

namespace Value

theorem sound_str_int (fits : InI64 number) : Sound (.str .int (intDecimalBytes number)) := by
  refine ⟨by rw [classify_intDecimalBytes fits]; rfl, ?_⟩
  intro other same
  rw [classify_intDecimalBytes fits] at same
  cases same
  rfl

private theorem sound_ofBytes : Sound (ofBytes bytes) := by
  unfold ofBytes
  split
  · rename_i number classified
    exact sound_str_int (inI64_of_classify classified)
  · rename_i classified
    exact ⟨by rw [classified]; rfl, fun number same => by rw [classified] at same; cases same⟩
  · rename_i classified
    exact ⟨by rw [classified]; rfl, fun number same => by rw [classified] at same; cases same⟩

theorem sound_ofNew (machine : ∀ number, value = .int number → InI64 number) :
    Sound (ofNew thresholds value) := by
  cases value with
  | int number => exact sound_str_int (machine number rfl)
  | bytes bytes => exact sound_ofBytes
  | list elems => exact ListVal.sound_fromElems
  | hash pairs => exact HashVal.sound_fromPairs thresholds pairs
  | hashEx pairs ttls => exact HashVal.sound_fromPairsEx pairs ttls
  | set members => exact SetVal.sound_fromMembers members thresholds
  | zset pairs => exact ZSetVal.sound_fromPairs pairs thresholds

end Value

/-- An entry shipped as an object is stored again as it was, but for its frequency. -/
theorem Entry.fromKvobj_toKvobj {entry : Entry} (sound : entry.value.Sound) :
    fromKvobj entry.toKvobj = entry.setFreq 0 := by
  obtain ⟨key, value, expireAt, freq⟩ := entry
  cases value with
  | coll value => rfl
  | str encoding bytes =>
    obtain ⟨classified, printed⟩ := sound
    cases shape : classify bytes with
    | int number =>
      rw [shape] at classified
      subst classified
      have same := printed number shape
      have parsed := strParseI64_intDecimalBytes (inI64_of_classify shape)
      rw [same] at parsed
      simp [fromKvobj, toKvobj, Entry.encoding, Value.encoding, Classified.encoding, parsed, same, setFreq]
    | embStr =>
      rw [shape] at classified
      subst classified
      rfl
    | raw =>
      rw [shape] at classified
      subst classified
      rfl

end IronCache.Store
