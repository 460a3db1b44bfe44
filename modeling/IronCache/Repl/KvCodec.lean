import IronCache.Store.Packed

/-!
# The value codec

`ironcache-repl/src/kvcodec.rs`: the bytes an entry travels and is saved as.
-/

namespace IronCache.Repl

open Codec Store

@[match_pattern] abbrev typeString : UInt8 := 0
@[match_pattern] abbrev typeList : UInt8 := 1
@[match_pattern] abbrev typeSet : UInt8 := 2
@[match_pattern] abbrev typeHash : UInt8 := 3
@[match_pattern] abbrev typeZset : UInt8 := 4

def typeToTag : DataType → UInt8
  | .string => typeString
  | .list => typeList
  | .set => typeSet
  | .hash => typeHash
  | .zset => typeZset

@[match_pattern] abbrev encInt : UInt8 := 0
@[match_pattern] abbrev encEmbstr : UInt8 := 1
@[match_pattern] abbrev encRaw : UInt8 := 2
@[match_pattern] abbrev encListpack : UInt8 := 3
@[match_pattern] abbrev encQuicklist : UInt8 := 4
@[match_pattern] abbrev encIntset : UInt8 := 5
@[match_pattern] abbrev encHashtable : UInt8 := 6
@[match_pattern] abbrev encSkiplist : UInt8 := 7
@[match_pattern] abbrev encListpackex : UInt8 := 8
@[match_pattern] abbrev encHashtableex : UInt8 := 9

def encToTag : Encoding → UInt8
  | .int => encInt
  | .embStr => encEmbstr
  | .raw => encRaw
  | .listPack => encListpack
  | .listPackEx => encListpackex
  | .quickList => encQuicklist
  | .intSet => encIntset
  | .hashTable => encHashtable
  | .skipList => encSkiplist

def tagToEnc : UInt8 → Option Encoding
  | encInt => some .int
  | encEmbstr => some .embStr
  | encRaw => some .raw
  | encListpack => some .listPack
  | encQuicklist => some .quickList
  | encIntset => some .intSet
  | encSkiplist => some .skipList
  | encListpackex => some .listPackEx
  | encHashtable | encHashtableex => some .hashTable
  | _ => none

/-- The length, then the bytes. -/
def putBytes (bytes : Bytes) : Bytes := leBytes 4 bytes.length ++ bytes

/-- A count, and then the items. -/
def putItems (put : α → Bytes) (items : List α) : Bytes :=
  leBytes 4 items.length ++ items.flatMap put

/-- A flag, then the deadline if there is one. -/
def putDeadline : Option ℕ → Bytes
  | some deadline => 1 :: leBytes 8 deadline
  | none => [0]

def putPair (pair : Bytes × Bytes) : Bytes := putBytes pair.1 ++ putBytes pair.2

def putTtl (ttl : Bytes × ℕ) : Bytes := putBytes ttl.1 ++ leBytes 8 ttl.2

/-- The score goes by its bits. -/
def putScored (entry : Bytes × F64) : Bytes := putBytes entry.1 ++ leBytes 8 entry.2.bits.toNat

/-- The deadlines of fields follow a hash only where it has some. -/
def putColl : CollVal → Bytes
  | .list value => putItems putBytes (value.range 0 (-1))
  | .hash value =>
    putItems putPair value.pairs ++ if value.hasFieldTtls then putItems putTtl value.fieldTtlPairs else []
  | .set value => putItems putBytes value.members
  | .zset value => putItems putScored value.ordered

/-- An integer goes as its decimal text. -/
def putValue : ValueRepr → Bytes
  | .int number => putBytes (intDecimalBytes number)
  | .inline bytes | .raw bytes => putBytes bytes
  | .coll value => putColl value

/-- A large hash with field deadlines has a tag of its own, which no encoding maps to. -/
def encByte (object : KvObj) : UInt8 :=
  match object.value with
  | .coll (.hash value) =>
    if value.hasFieldTtls && !value.isListpack then encHashtableex else encToTag object.encoding
  | _ => encToTag object.encoding

/-- The type, the encoding, the deadline, the key and the value. -/
def encodeKvobj (object : KvObj) : Bytes :=
  typeToTag object.dataType :: encByte object ::
    (putDeadline object.expireAt ++ (putBytes object.key ++ putValue object.value))

/-- The string fast path reads the blob; a collection goes through the object. -/
def encodeEntryInto (out : Bytes) (entry : Packed) : Bytes :=
  match entry with
  | .coll _ _ _ _ => out ++ encodeKvobj entry.toKvobj
  | .str _ =>
    out ++ typeToTag entry.dataType :: encToTag entry.encoding ::
      (putDeadline entry.expireAt ++ (putBytes entry.key ++ putBytes entry.strValueBytes))

def getBytes : Reader Bytes := le 4 >>= take

def getItems (reader : Reader α) : Reader (List α) := le 4 >>= many reader

/-- Fails on a flag other than 0 and 1. -/
def getDeadline : Reader (Option ℕ) := do
  match ← byte with
  | 0 => return none
  | 1 => return some (← le 8)
  | _ => failure

def getPair : Reader (Bytes × Bytes) := do
  let field ← getBytes
  let value ← getBytes
  return (field, value)

def getTtl : Reader (Bytes × ℕ) := do
  let field ← getBytes
  let deadline ← le 8
  return (field, deadline)

def getScored : Reader (Bytes × F64) := do
  let member ← getBytes
  let bits ← le 8
  return (member, ⟨UInt64.ofNat bits⟩)

/-- The value of a type tag, rebuilt in the recorded form; the tag byte says whether field
deadlines follow a hash. -/
def getValue (typeTag tag : UInt8) (encoding : Encoding) (key : Bytes) (expireAt : Option ℕ) :
    Reader KvObj :=
  match typeTag with
  | typeString => do
      let bytes ← getBytes
      return { KvObj.fromBytes key bytes expireAt with encoding }
  | typeList => do
      let elems ← getItems getBytes
      return .fromColl key (.list (.rebuild elems encoding)) expireAt
  | typeHash => do
      let pairs ← getItems getPair
      let ttls ← if tag = encListpackex ∨ tag = encHashtableex then getItems getTtl else pure []
      return .fromColl key (.hash (.rebuild pairs encoding ttls)) expireAt
  | typeSet => do
      let members ← getItems getBytes
      return .fromColl key (.set (.rebuild members encoding)) expireAt
  | typeZset => do
      let pairs ← getItems getScored
      return .fromColl key (.zset (.rebuild pairs encoding)) expireAt
  | _ => failure

def getKvobj : Reader KvObj := do
  let typeTag ← byte
  let tag ← byte
  match tagToEnc tag with
  | some encoding =>
    let expireAt ← getDeadline
    let key ← getBytes
    getValue typeTag tag encoding key expireAt
  | none => failure

/-- Bytes left over refuse the object. -/
def decodeKvobj (buf : Bytes) : Option KvObj := readAll getKvobj buf

/-- The length fits its field. -/
def FitsBytes (bytes : Bytes) : Prop := bytes.length < 256 ^ 4

/-- A list of items whose number fits its count. -/
def FitsItems (fits : α → Prop) (items : List α) : Prop :=
  items.length < 256 ^ 4 ∧ ∀ item ∈ items, fits item

instance (bytes : Bytes) : Decidable (FitsBytes bytes) :=
  inferInstanceAs (Decidable (bytes.length < 256 ^ 4))

instance (fits : α → Prop) [DecidablePred fits] (items : List α) : Decidable (FitsItems fits items) :=
  inferInstanceAs (Decidable (items.length < 256 ^ 4 ∧ ∀ item ∈ items, fits item))

theorem reads_getBytes (fits : FitsBytes bytes) : Reads getBytes (putBytes bytes) bytes :=
  (reads_le fits).bind (reads_take bytes)

theorem reads_getItems {fits : α → Prop} (reads : ∀ item, fits item → Reads reader (put item) item)
    (all : FitsItems fits items) : Reads (getItems reader) (putItems put items) items :=
  (reads_le all.1).bind (reads_many fun item member => reads item (all.2 item member))

private theorem reads_getDeadline (fits : ∀ deadline ∈ expireAt, deadline < 256 ^ 8) :
    Reads getDeadline (putDeadline expireAt) expireAt := by
  cases expireAt with
  | none => exact reads_byte.bind (.pure none)
  | some deadline => exact reads_byte.bind ((reads_le (fits deadline rfl)).last some)

private theorem reads_getPair (fits : FitsBytes pair.1 ∧ FitsBytes pair.2) :
    Reads getPair (putPair pair) pair :=
  (reads_getBytes fits.1).bind ((reads_getBytes fits.2).last _)

private theorem reads_getTtl (fits : FitsBytes ttl.1 ∧ ttl.2 < 256 ^ 8) : Reads getTtl (putTtl ttl) ttl :=
  (reads_getBytes fits.1).bind ((reads_le fits.2).last _)

private theorem reads_getScored (fits : FitsBytes entry.1) : Reads getScored (putScored entry) entry := by
  have bits : entry.2.bits.toNat < 256 ^ 8 := by
    have small := entry.2.bits.toNat_lt
    omega
  have score : entry = (entry.1, (⟨UInt64.ofNat entry.2.bits.toNat⟩ : F64)) := by
    rw [UInt64.ofNat_toNat]
  have read := (reads_le bits).last fun bits => (entry.1, (⟨UInt64.ofNat bits⟩ : F64))
  rw [← score] at read
  exact (reads_getBytes fits).bind read

theorem steady_getBytes : Steady getBytes := (Steady.le 4).bind .take

private theorem steady_getItems (steady : Steady reader) : Steady (getItems reader) :=
  (Steady.le 4).bind steady.many

private theorem steady_getDeadline : Steady getDeadline := by
  refine Steady.byte.bind fun present => ?_
  split
  · exact .pure none
  · exact (Steady.le 8).last
  · exact .failure

private theorem steady_getPair : Steady getPair :=
  steady_getBytes.bind fun _ => steady_getBytes.last

private theorem steady_getTtl : Steady getTtl :=
  steady_getBytes.bind fun _ => (Steady.le 8).last

private theorem steady_getScored : Steady getScored :=
  steady_getBytes.bind fun _ => (Steady.le 8).last

private theorem steady_getValue : Steady (getValue typeTag tag encoding key expireAt) := by
  unfold getValue
  split
  · exact steady_getBytes.last
  · exact (steady_getItems steady_getBytes).last
  · refine (steady_getItems steady_getPair).bind fun _ => ?_
    split_ifs
    · exact (steady_getItems steady_getTtl).last
    · exact (Steady.pure []).last
  · exact (steady_getItems steady_getBytes).last
  · exact (steady_getItems steady_getScored).last
  · exact .failure

private theorem steady_getKvobj : Steady getKvobj := by
  refine Steady.byte.bind fun typeTag => Steady.byte.bind fun tag => ?_
  split
  · exact steady_getDeadline.bind fun _ => steady_getBytes.bind fun _ =>
      steady_getValue
  · exact .failure

/-- Every part of the collection fits its field. -/
def FitsColl : CollVal → Prop
  | .list value => FitsItems FitsBytes (value.range 0 (-1))
  | .hash value =>
    FitsItems (fun pair => FitsBytes pair.1 ∧ FitsBytes pair.2) value.pairs ∧
      FitsItems (fun ttl => FitsBytes ttl.1 ∧ ttl.2 < 256 ^ 8) value.fieldTtlPairs
  | .set value => FitsItems FitsBytes value.members
  | .zset value => FitsItems (fun entry => FitsBytes entry.1) value.ordered

def FitsValue : ValueRepr → Prop
  | .int number => FitsBytes (intDecimalBytes number)
  | .inline bytes | .raw bytes => FitsBytes bytes
  | .coll value => FitsColl value

instance : DecidablePred FitsColl
  | .list value => inferInstanceAs (Decidable (FitsItems FitsBytes (value.range 0 (-1))))
  | .hash _ => inferInstanceAs (Decidable (FitsItems _ _ ∧ FitsItems _ _))
  | .set value => inferInstanceAs (Decidable (FitsItems FitsBytes value.members))
  | .zset _ => inferInstanceAs (Decidable (FitsItems _ _))

/-- Every length and count of the object fits 32 bits, and every deadline 64. -/
structure FitsObject (object : KvObj) : Prop where
  key : FitsBytes object.key
  deadline : ∀ deadline ∈ object.expireAt, deadline < 256 ^ 8
  value : FitsValue object.value

theorem tagToEnc_encToTag : tagToEnc (encToTag encoding) = some encoding := by
  cases encoding <;> rfl

theorem reads_getKvobj (key : FitsBytes object.key)
    (deadline : ∀ deadline ∈ object.expireAt, deadline < 256 ^ 8)
    (tag : tagToEnc (encByte object) = some encoding)
    (value : Reads (getValue (typeToTag object.dataType) (encByte object) encoding object.key
      object.expireAt) (putValue object.value) result) :
    Reads getKvobj (encodeKvobj object) result := by
  refine reads_byte.bind (reads_byte.bind ?_)
  rw [tag]
  exact (reads_getDeadline deadline).bind ((reads_getBytes key).bind value)

/-- A collection put together again from what is written of it. -/
def rebuildColl : CollVal → CollVal
  | .list value => .list (.rebuild (value.range 0 (-1)) value.encoding)
  | .hash value => .hash (.rebuild value.pairs value.encoding value.fieldTtlPairs)
  | .set value => .set (.rebuild value.members value.encoding)
  | .zset value => .zset (.rebuild value.ordered value.encoding)

theorem reads_string (tag : UInt8) (encoding : Encoding) (key : Bytes) (expireAt : Option ℕ)
    (fits : FitsBytes bytes) : Reads (getValue typeString tag encoding key expireAt) (putBytes bytes)
      { KvObj.fromBytes key bytes expireAt with encoding } :=
  (reads_getBytes fits).last _

/-- The deadlines of a hash are read exactly where they were written. -/
private theorem reads_hash (fits : FitsColl (.hash value))
    (marked : tag = encListpackex ∨ tag = encHashtableex ↔ value.hasFieldTtls = true) :
    Reads (getValue typeHash tag value.encoding key expireAt) (putColl (.hash value))
      (.fromColl key (rebuildColl (.hash value)) expireAt) := by
  refine (reads_getItems (fun _ => reads_getPair) fits.1).bind ?_
  by_cases present : value.hasFieldTtls = true
  · rw [if_pos (marked.mpr present), if_pos present]
    exact (reads_getItems (fun _ => reads_getTtl) fits.2).last _
  rw [if_neg (mt marked.mp present), if_neg present]
  have absent : value.fieldTtlPairs = [] := by
    unfold HashVal.fieldTtlPairs
    rw [Option.not_isSome_iff_eq_none.mp present]
    rfl
  rw [rebuildColl, absent]
  exact (Reads.pure []).last _

private theorem encByte_hash (value : HashVal) :
    tagToEnc (encByte (.fromColl key (.hash value) expireAt)) = some value.encoding ∧
      (encByte (.fromColl key (.hash value) expireAt) = encListpackex ∨
          encByte (.fromColl key (.hash value) expireAt) = encHashtableex ↔
        value.hasFieldTtls = true) := by
  obtain ⟨data, ttls⟩ := value
  cases data with
  | listPack entries =>
    cases ttls with
    | none =>
      have plain : ¬(encListpack = encListpackex ∨ encListpack = encHashtableex) := by decide
      exact ⟨rfl, iff_of_false plain Bool.false_ne_true⟩
    | some ttls => exact ⟨rfl, iff_of_true (.inl rfl) rfl⟩
  | hashTable table =>
    cases ttls with
    | none =>
      have plain : ¬(encHashtable = encListpackex ∨ encHashtable = encHashtableex) := by decide
      exact ⟨rfl, iff_of_false plain Bool.false_ne_true⟩
    | some ttls => exact ⟨rfl, iff_of_true (.inr rfl) rfl⟩

theorem reads_coll (key : Bytes) (expireAt : Option ℕ) (short : FitsBytes key)
    (deadline : ∀ deadline ∈ expireAt, deadline < 256 ^ 8) (fits : FitsColl value) :
    Reads getKvobj (encodeKvobj (.fromColl key value expireAt))
      (.fromColl key (rebuildColl value) expireAt) := by
  cases value with
  | list value =>
    refine reads_getKvobj short deadline tagToEnc_encToTag ?_
    exact (reads_getItems (fun _ => reads_getBytes) fits).last _
  | hash value =>
    obtain ⟨tag, marked⟩ := encByte_hash value
    exact reads_getKvobj short deadline tag (reads_hash fits marked)
  | set value =>
    refine reads_getKvobj short deadline tagToEnc_encToTag ?_
    exact (reads_getItems (fun _ => reads_getBytes) fits).last _
  | zset value =>
    refine reads_getKvobj short deadline tagToEnc_encToTag ?_
    exact (reads_getItems (fun _ => reads_getScored) fits).last _

/-- Collections of one form with the same contents; only a set may list them in another order. -/
def AlikeColl : CollVal → CollVal → Prop
  | .set left, .set right => left.Same right
  | left, right => left = right

private theorem usize_of_fits (fits : length < 256 ^ 4) : length ≤ usizeMax := by
  have wide : 256 ^ 4 ≤ usizeMax := by decide
  omega

theorem rebuildColl_alike (sound : value.Sound) (fits : FitsColl value) :
    AlikeColl (rebuildColl value) value ∧ (rebuildColl value).Sound := by
  cases value with
  | list value =>
    have short : value.elems.length ≤ usizeMax := by
      have counted := usize_of_fits fits.1
      rwa [ListVal.range_all] at counted
    have same := ListVal.rebuild_range sound short
    rw [rebuildColl, same]
    exact ⟨rfl, sound⟩
  | hash value =>
    have same := HashVal.rebuild_pairs sound (usize_of_fits fits.1.1) fun pair member =>
      ⟨usize_of_fits (fits.1.2 pair member).1, usize_of_fits (fits.1.2 pair member).2⟩
    rw [rebuildColl, same]
    exact ⟨rfl, sound⟩
  | set value =>
    exact SetVal.rebuild_members sound (usize_of_fits fits.1) fun member listed =>
      usize_of_fits (fits.2 member listed)
  | zset value =>
    have same := ZSetVal.rebuild_ordered sound (usize_of_fits fits.1) fun pair listed =>
      usize_of_fits (fits.2 pair listed)
    rw [rebuildColl, same]
    exact ⟨rfl, sound⟩

/-- However a string is held, its bytes are what is written. -/
theorem putValue_str {entry : Entry} (sound : entry.value.Sound) (held : entry.value = .str encoding bytes) :
    putValue entry.toKvobj.value = putBytes bytes ∧ encByte entry.toKvobj = encToTag encoding ∧
        (FitsValue entry.toKvobj.value → FitsBytes bytes) := by
  obtain ⟨key, value, expireAt, freq⟩ := entry
  cases held
  obtain ⟨classified, printed⟩ := sound
  cases shape : classify bytes with
  | int number =>
    rw [shape] at classified
    cases classified
    have same := printed number shape
    have parsed := strParseI64_intDecimalBytes (inI64_of_classify shape)
    rw [same] at parsed
    simp [Entry.toKvobj, parsed, putValue, same, encByte, FitsValue, Entry.encoding,
      Value.encoding, Classified.encoding]
  | embStr =>
    rw [shape] at classified
    cases classified
    exact ⟨rfl, rfl, fun fits => fits⟩
  | raw =>
    rw [shape] at classified
    cases classified
    exact ⟨rfl, rfl, fun fits => fits⟩

theorem fromKvobj_fromBytes (sound : Value.Sound (.str encoding bytes)) (key : Bytes) (expireAt : Option ℕ) :
    Entry.fromKvobj { KvObj.fromBytes key bytes expireAt with encoding } =
      { key, value := .str encoding bytes, expireAt } := by
  obtain ⟨classified, printed⟩ := sound
  unfold KvObj.fromBytes ValueRepr.ofBytes Entry.fromKvobj
  cases shape : classify bytes with
  | int number =>
    rw [shape] at classified
    cases classified
    rw [← printed number shape]
    rfl
  | embStr => rfl
  | raw => rfl

theorem reads_str {entry : Entry} (sound : entry.value.Sound)
    (held : entry.value = .str encoding bytes) (fits : FitsObject entry.toKvobj) :
    Reads getKvobj (encodeKvobj entry.toKvobj)
      { KvObj.fromBytes entry.key bytes entry.expireAt with encoding } := by
  obtain ⟨written, tagged, bounded⟩ := putValue_str sound held
  have tag : tagToEnc (encByte entry.toKvobj) = some encoding := by
    rw [tagged]
    exact tagToEnc_encToTag
  have type : typeToTag entry.toKvobj.dataType = typeString := by
    obtain ⟨key, value, expireAt, freq⟩ := entry
    cases held
    rfl
  refine reads_getKvobj fits.key fits.deadline tag ?_
  rw [written, type]
  exact reads_string _ encoding _ _ (bounded fits.value)

/-- Entries of one form with the same contents. -/
def SameContents : Packed → Packed → Prop
  | .str left, .str right => (Packed.str left).strValueBytes = (Packed.str right).strValueBytes
  | .coll _ _ _ left, .coll _ _ _ right => AlikeColl left right
  | _, _ => False

/-- What the codec keeps of an entry. -/
structure Faithful (stored original : Packed) : Prop where
  key : stored.key = original.key
  dataType : stored.dataType = original.dataType
  encoding : stored.encoding = original.encoding
  expireAt : stored.expireAt = original.expireAt
  contents : SameContents stored original

/-- The packed form of a well-formed record. -/
def Formed (packed : Packed) : Prop :=
  ∃ entry : Entry, packed = entry.pack ∧ entry.Fits ∧ entry.value.Sound

theorem AlikeColl.header (alike : AlikeColl left right) :
    left.dataType = right.dataType ∧ left.encoding = right.encoding := by
  unfold AlikeColl at alike
  split at alike
  · exact ⟨rfl, alike.1⟩
  · cases alike
    exact ⟨rfl, rfl⟩

/-- An entry is read back, and what is stored of it is well formed and faithful. -/
theorem exists_reads_of_formed (formed : Formed packed) (fits : FitsObject packed.toKvobj) :
    ∃ object, Reads getKvobj (encodeKvobj packed.toKvobj) object ∧
      Formed (Packed.fromKvobj object) ∧
        ∀ freq, Faithful ((Packed.fromKvobj object).setFreq freq) packed := by
  obtain ⟨entry, rfl, small, sound⟩ := formed
  have unpacked := Entry.toKvobj_pack small
  rw [unpacked] at fits ⊢
  obtain ⟨key, value, expireAt, held⟩ := entry
  cases value with
  | coll value =>
    obtain ⟨alike, rebuilt⟩ := rebuildColl_alike sound fits.value
    refine ⟨_, reads_coll key expireAt fits.key fits.deadline fits.value,
      ⟨⟨key, .coll (rebuildColl value), expireAt, 0⟩, rfl, ?_, rebuilt⟩, ?_⟩
    · exact ⟨small.short, small.deadline, Nat.zero_le 3⟩
    · intro freq
      exact ⟨rfl, alike.header.1, alike.header.2, rfl, alike⟩
  | str encoding bytes =>
    have back := fromKvobj_fromBytes sound key expireAt
    have stored := @Entry.fromKvobj_pack
      { KvObj.fromBytes key bytes expireAt with encoding } small.short fun _ _ => rfl
    rw [back] at stored
    have fresh : Entry.Fits ⟨key, .str encoding bytes, expireAt, 0⟩ :=
      ⟨small.short, small.deadline, Nat.zero_le 3⟩
    refine ⟨_, reads_str sound rfl fits, ⟨_, stored, fresh, sound⟩, ?_⟩
    intro freq
    rw [stored, Entry.setFreq_pack fresh]
    have kept : Entry.Fits (Entry.setFreq ⟨key, .str encoding bytes, expireAt, 0⟩ freq) :=
      ⟨small.short, small.deadline, min_le_right _ _⟩
    refine ⟨?_, ?_, ?_, ?_, ?_⟩
    · rw [Entry.key_pack kept, Entry.key_pack small]
      rfl
    · rfl
    · rfl
    · rw [Entry.expireAt_pack kept, Entry.expireAt_pack small]
      rfl
    · exact (Entry.strValueBytes_pack kept rfl).trans (Entry.strValueBytes_pack small rfl).symm

private theorem encodeEntryInto_of_formed (formed : Formed packed) (out : Bytes) :
    encodeEntryInto out packed = out ++ encodeKvobj packed.toKvobj := by
  obtain ⟨entry, rfl, small, sound⟩ := formed
  have unpacked := Entry.toKvobj_pack small
  obtain ⟨name, value, deadline, held⟩ := entry
  cases value with
  | coll value => rfl
  | str encoding bytes =>
    obtain ⟨key, valueBytes, -, encoded, expireAt, -⟩ := small.reads
    obtain ⟨written, tagged, -⟩ := putValue_str sound rfl
    rw [unpacked]
    unfold encodeKvobj
    rw [written, tagged]
    simp only [Entry.pack, encodeEntryInto, key, expireAt, encoded, valueBytes]
    rfl

/-- The entries of a keyspace: created by a write, changed in place, renamed, and inserted from
an object that was just built, or that a stored entry was shipped as, with or without the codec. -/
inductive Reachable : Packed → Prop
  | created (value : NewValueOwned) (thresholds : EncodingThresholds) (short : key.length < 2 ^ 32)
      (deadline : ∀ deadline, expireAt = some deadline → deadline < 2 ^ 64)
      (machine : ∀ number, value = .int number → InI64 number) :
      Reachable (.fromNewOwned key value expireAt thresholds)
  | edited (edit : CollEdit) (reached : Reachable (.coll evictionRank expireAt key value)) :
      Reachable (.coll evictionRank expireAt key (value.edit edit))
  | expiring (deadline : ∀ deadline, expireAt = some deadline → deadline < 2 ^ 64)
      (reached : Reachable packed) : Reachable (packed.setExpireAt expireAt)
  | accessed (freq : ℕ) (reached : Reachable packed) : Reachable (packed.setFreq freq)
  | renamed (short : key.length < 2 ^ 32) (reached : Reachable packed) : Reachable (packed.rekey key)
  | inserted (value : NewValueOwned) (thresholds : EncodingThresholds) (short : key.length < 2 ^ 32)
      (deadline : ∀ deadline, expireAt = some deadline → deadline < 2 ^ 64)
      (machine : ∀ number, value = .int number → InI64 number) :
      Reachable (.fromKvobj (.fromNewOwned key value expireAt thresholds))
  | copied (reached : Reachable packed) : Reachable (.fromKvobj packed.toKvobj)
  | shipped (reached : Reachable packed) (fits : FitsObject packed.toKvobj)
      (read : decodeKvobj (encodeKvobj packed.toKvobj) = some object) : Reachable (.fromKvobj object)

private theorem fromKvobj_fromNewOwned : Packed.fromKvobj (.fromNewOwned key value expireAt thresholds) =
      .fromNewOwned key value expireAt thresholds := by
  cases value with
  | bytes bytes =>
    unfold Packed.fromKvobj Packed.fromNewOwned
    simp only [KvObj.fromNewOwned, KvObj.fromBytes, ValueRepr.ofBytes, Value.ofNew, Value.ofBytes]
    cases classify bytes <;> rfl
  | _ => rfl

theorem Reachable.formed (reachable : Reachable packed) : Formed packed := by
  induction reachable with
  | created value thresholds short deadline machine =>
    exact ⟨_, Entry.fromNewOwned_pack value _ thresholds short,
      ⟨short, deadline, Nat.zero_le 3⟩, Value.sound_ofNew machine⟩
  | edited edit _ ih =>
    obtain ⟨⟨key, value, expireAt, freq⟩, same, small, sound⟩ := ih
    cases value with
    | str encoding bytes => cases same
    | coll value =>
      cases same
      exact ⟨⟨_, .coll (CollVal.edit _ edit), _, _⟩, rfl,
        ⟨small.short, small.deadline, small.freq⟩, CollVal.Sound.edit sound edit⟩
  | expiring deadline _ ih =>
    obtain ⟨entry, rfl, small, sound⟩ := ih
    exact ⟨_, Entry.setExpireAt_pack small _, ⟨small.short, deadline, small.freq⟩, sound⟩
  | accessed freq _ ih =>
    obtain ⟨entry, rfl, small, sound⟩ := ih
    exact ⟨_, Entry.setFreq_pack small freq, ⟨small.short, small.deadline, min_le_right _ _⟩, sound⟩
  | renamed short _ ih =>
    obtain ⟨entry, rfl, small, sound⟩ := ih
    exact ⟨_, Entry.rekey_pack small short, ⟨short, small.deadline, small.freq⟩, sound⟩
  | inserted value thresholds short deadline machine =>
    rw [fromKvobj_fromNewOwned]
    exact ⟨_, Entry.fromNewOwned_pack value _ thresholds short,
      ⟨short, deadline, Nat.zero_le 3⟩, Value.sound_ofNew machine⟩
  | copied _ ih =>
    obtain ⟨entry, rfl, small, sound⟩ := ih
    have stored := @Entry.fromKvobj_pack entry.toKvobj small.short (by
      intro bytes held
      obtain ⟨key, value, expireAt, freq⟩ := entry
      cases value with
      | str encoding bytes => rfl
      | coll value => rcases held with held | held <;> cases held)
    rw [Entry.fromKvobj_toKvobj sound] at stored
    rw [Entry.toKvobj_pack small]
    exact ⟨_, stored, ⟨small.short, small.deadline, Nat.zero_le 3⟩, sound⟩
  | shipped _ fits read ih =>
    obtain ⟨object, reads, formed, -⟩ := exists_reads_of_formed ih fits
    rw [decodeKvobj, readAll_of_reads reads] at read
    cases read
    exact formed

/-- The codec is faithful on every entry of a keyspace: what is read back and inserted, over
whatever access frequency stood there, is the entry; the direct writer writes the same bytes; and
no other bytes that begin with an encoding, or begin one, are read. -/
theorem decodeKvobj_encodeKvobj_faithful {packed : Packed} (reachable : Reachable packed)
    (fits : FitsObject packed.toKvobj) : (∃ object, decodeKvobj (encodeKvobj packed.toKvobj) = some object ∧
      ∀ freq, Faithful ((Packed.fromKvobj object).setFreq freq) packed) ∧
    (∀ out, encodeEntryInto out packed = out ++ encodeKvobj packed.toKvobj) ∧
    (∀ more, more ≠ [] → decodeKvobj (encodeKvobj packed.toKvobj ++ more) = none) ∧
    ∀ part, part <+: encodeKvobj packed.toKvobj → part ≠ encodeKvobj packed.toKvobj →
      decodeKvobj part = none := by
  obtain ⟨object, reads, -, faithful⟩ := exists_reads_of_formed reachable.formed fits
  exact ⟨⟨object, readAll_of_reads reads, faithful⟩, encodeEntryInto_of_formed reachable.formed,
    fun _ extra => readAll_append reads extra,
    fun _ cut proper => readAll_cut steady_getKvobj reads cut proper⟩

/-- A hash that its second field took to the large form. -/
def promoted : HashVal :=
  .fromPairs { EncodingThresholds.defaults with hashMaxListpackEntries := 1 } [([1], [2]), ([3], [4])]

/-- The field is gone again, the form stays, and the other field has a deadline. -/
def shrunk : Packed :=
  .coll 0 (some 9) [104] (((CollVal.hash promoted).edit (.hash (.del [3]))).edit (.hash (.setFieldTtl [1] 7)))

private theorem reachable_shrunk : Reachable shrunk := by
  refine .edited _ (.edited _ ?_)
  have created := @Reachable.created (some 9) [104] (.hash [([1], [2]), ([3], [4])])
    { EncodingThresholds.defaults with hashMaxListpackEntries := 1 } (by decide)
    (fun deadline same => by cases same; decide) (fun number same => by cases same)
  exact created

private theorem fits_shrunk : FitsObject shrunk.toKvobj where
  key := by decide
  deadline := by decide
  value := by
    have fits : FitsColl (((CollVal.hash promoted).edit (.hash (.del [3]))).edit
        (.hash (.setFieldTtl [1] 7))) := by decide
    exact fits

theorem decodeKvobj_encodeKvobj_shrunk : (∃ object, decodeKvobj (encodeKvobj shrunk.toKvobj) = some object ∧
      ∀ freq, Faithful ((Packed.fromKvobj object).setFreq freq) shrunk) ∧
    shrunk.encoding = .hashTable :=
  ⟨(decodeKvobj_encodeKvobj_faithful reachable_shrunk fits_shrunk).1, by decide⟩

end IronCache.Repl
