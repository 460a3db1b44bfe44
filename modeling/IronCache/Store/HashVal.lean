import IronCache.Lib.OrdMap
import IronCache.Store.Encoding
import IronCache.Store.ScanHash

/-!
# Hash values

`HashVal` of `ironcache-store/src/kvobj.rs`, with the deadlines of single fields.
-/

namespace IronCache.Store

open List

/-- A small hash is a list in insertion order. -/
inductive HashData where
  | listPack (entries : List (Bytes × Bytes))
  | hashTable (table : OrdMap Bytes Bytes)
deriving DecidableEq

/-- The fields, and the deadlines of those that have one. -/
structure HashVal where
  data : HashData
  ttls : Option (OrdMap Bytes ℕ)
deriving DecidableEq

namespace HashVal

def new : HashVal := ⟨.listPack [], none⟩

def pairBytes (pairs : List (Bytes × Bytes)) : ℕ :=
  (pairs.map fun pair => pair.1.length + pair.2.length).sum

def elementBytes (hash : HashVal) : ℕ :=
  match hash.data with
  | .listPack entries => pairBytes entries
  | .hashTable table => pairBytes table.toList

def encoding (hash : HashVal) : Encoding :=
  match hash.data with
  | .listPack _ => if hash.ttls.isSome then .listPackEx else .listPack
  | .hashTable _ => .hashTable

def isListpack (hash : HashVal) : Bool :=
  match hash.data with
  | .listPack _ => true
  | .hashTable _ => false

def get (hash : HashVal) (field : Bytes) : Option Bytes :=
  match hash.data with
  | .listPack entries => entries.lookup field
  | .hashTable table => table.get? field

variable (hash : HashVal)

def contains (field : Bytes) : Bool := (hash.get field).isSome

def len : ℕ :=
  match hash.data with
  | .listPack entries => entries.length
  | .hashTable table => table.toList.length

/-- The pairs in insertion order, or in scan order in the large form. -/
def pairs : List (Bytes × Bytes) :=
  match hash.data with
  | .listPack entries => entries
  | .hashTable table => scanSort Prod.fst table.toList

/-- Whether the list has outgrown its encoding. -/
def shouldConvert (entries fieldLen valueLen : ℕ) (thresholds : EncodingThresholds) : Bool :=
  thresholds.hashMaxListpackEntries < entries || thresholds.hashMaxListpackValue < fieldLen ||
    thresholds.hashMaxListpackValue < valueLen

def convertToHashtable : HashVal :=
  match hash.data with
  | .listPack entries => { hash with data := .hashTable ((∅ : OrdMap Bytes Bytes).insertAll entries) }
  | .hashTable _ => hash

def forceLargeEncoding : HashVal → HashVal := convertToHashtable

/-- Overwrites the value of the first pair with the field. -/
def overwrite (field value : Bytes) : List (Bytes × Bytes) → List (Bytes × Bytes)
  | [] => []
  | pair :: rest =>
    if pair.1 = field then (pair.1, value) :: rest else pair :: overwrite field value rest

/-- A new field goes to the end of the list. -/
def set (field value : Bytes) (thresholds : EncodingThresholds) (hash : HashVal) : Bool × HashVal :=
  match hash.data with
  | .listPack entries =>
    let present := (entries.lookup field).isSome
    let written := if present then overwrite field value entries else entries ++ [(field, value)]
    let small := { hash with data := .listPack written }
    (!present, if shouldConvert written.length field.length value.length thresholds then
        small.convertToHashtable
      else small)
  | .hashTable table =>
    ((table.get? field).isNone, { hash with data := .hashTable (table.insert field value) })

def setNx (field value : Bytes) (thresholds : EncodingThresholds) (hash : HashVal) : Bool × HashVal :=
  if hash.contains field then (false, hash) else (true, (hash.set field value thresholds).2)

/-- Drops a field's deadline, and the side map with its last deadline. -/
def clearFieldTtl (field : Bytes) (hash : HashVal) : Bool × HashVal :=
  match hash.ttls with
  | none => (false, hash)
  | some ttls =>
    let rest := ttls.erase field
    ((ttls.get? field).isSome, { hash with ttls := if rest.toList = [] then none else some rest })

def del (field : Bytes) (hash : HashVal) : Bool × HashVal :=
  if hash.contains field then
    let data := match hash.data with
      | .listPack entries => .listPack (entries.eraseP (·.1 == field))
      | .hashTable table => .hashTable (table.erase field)
    (true, (clearFieldTtl field { hash with data }).2)
  else (false, hash)

def setFieldTtl (field : Bytes) (deadline : ℕ) (hash : HashVal) : HashVal :=
  { hash with ttls := some ((hash.ttls.getD ∅).insert field deadline) }

def persistField : Bytes → HashVal → Bool × HashVal := clearFieldTtl

def hasFieldTtls : Bool := hash.ttls.isSome

/-- The fields that have a deadline, by field. -/
def fieldTtlPairs : List (Bytes × ℕ) := (hash.ttls.map (·.toList)).getD []

/-- The fields whose time has come, and the hash without them. -/
def reapExpiredFields (now : ℕ) (hash : HashVal) : List Bytes × HashVal :=
  let expired := (hash.fieldTtlPairs.filter (·.2 ≤ now)).map Prod.fst
  (expired, expired.foldl (fun rest field => (rest.del field).2) hash)

end HashVal

inductive HashEdit where
  | set (field value : Bytes) (thresholds : EncodingThresholds)
  | setNx (field value : Bytes) (thresholds : EncodingThresholds)
  | del (field : Bytes)
  | setFieldTtl (field : Bytes) (deadline : ℕ)
  | persistField (field : Bytes)
  | reapExpiredFields (now : ℕ)

namespace HashVal

def edit (hash : HashVal) : HashEdit → HashVal
  | .set field value thresholds => (hash.set field value thresholds).2
  | .setNx field value thresholds => (hash.setNx field value thresholds).2
  | .del field => (hash.del field).2
  | .setFieldTtl field deadline => hash.setFieldTtl field deadline
  | .persistField field => (hash.persistField field).2
  | .reapExpiredFields now => (hash.reapExpiredFields now).2

/-- The small form names no field twice, and a side map holds at least one deadline. -/
structure Sound (hash : HashVal) : Prop where
  distinct : ∀ entries, hash.data = .listPack entries → (entries.map Prod.fst).Nodup
  deadlines : ∀ ttls, hash.ttls = some ttls → ttls.toList ≠ []

theorem sound_new : Sound new where
  distinct := by
    intro entries held
    cases held
    exact nodup_nil
  deadlines := by
    intro ttls held
    cases held

private theorem overwrite_fields : (overwrite field value entries).map Prod.fst = entries.map Prod.fst := by
  induction entries with
  | nil => rfl
  | cons pair rest ih =>
    unfold overwrite
    split_ifs
    · rfl
    · simp [ih]

variable {entries : List (Bytes × Bytes)}

theorem lookup_isSome_iff : (entries.lookup field).isSome = true ↔ field ∈ entries.map Prod.fst := by
  induction entries with
  | nil => simp
  | cons pair rest ih =>
    obtain ⟨name, value⟩ := pair
    by_cases same : field = name
    · simp [same]
    · simp [lookup_cons, beq_eq_false_iff_ne.mpr same, same, ih]

variable {hash : HashVal}

theorem Sound.convertToHashtable (deadlines : ∀ ttls, hash.ttls = some ttls → ttls.toList ≠ []) :
    Sound hash.convertToHashtable := by
  unfold HashVal.convertToHashtable
  split
  · refine ⟨?_, deadlines⟩
    intro entries held
    cases held
  rename_i table large
  refine ⟨?_, deadlines⟩
  intro entries held
  rw [large] at held
  cases held

/-- The small form with distinct fields is sound, and so is its conversion. -/
theorem Sound.settle (distinct : (entries.map Prod.fst).Nodup)
    (deadlines : ∀ ttls, hash.ttls = some ttls → ttls.toList ≠ []) (convert : Bool) :
    Sound (if convert then { hash with data := .listPack entries }.convertToHashtable
      else { hash with data := .listPack entries }) := by
  cases convert with
  | true =>
    rw [if_pos rfl]
    apply Sound.convertToHashtable
    exact deadlines
  | false =>
    refine ⟨?_, deadlines⟩
    intro held same
    cases same
    exact distinct

theorem Sound.set (sound : Sound hash) (field value : Bytes) (thresholds : EncodingThresholds) :
    Sound (hash.set field value thresholds).2 := by
  unfold HashVal.set
  split
  · rename_i entries small
    have distinct := sound.distinct entries small
    refine .settle ?_ sound.deadlines _
    split_ifs with present
    · rwa [overwrite_fields]
    rw [map_append, nodup_append_comm]
    refine nodup_cons.mpr ⟨?_, by simpa using distinct⟩
    simpa [lookup_isSome_iff] using present
  · refine ⟨?_, sound.deadlines⟩
    intro entries held
    cases held

theorem Sound.clearFieldTtl (sound : Sound hash) (field : Bytes) : Sound (hash.clearFieldTtl field).2 := by
  unfold HashVal.clearFieldTtl
  split
  · exact sound
  refine ⟨sound.distinct, ?_⟩
  intro ttls held
  dsimp only at held
  split_ifs at held with emptied
  cases held
  exact emptied

theorem Sound.del (sound : Sound hash) (field : Bytes) : Sound (hash.del field).2 := by
  unfold HashVal.del
  split_ifs
  · apply Sound.clearFieldTtl
    refine ⟨?_, sound.deadlines⟩
    intro entries held
    split at held
    · rename_i before small
      cases held
      exact (sound.distinct before small).sublist (eraseP_sublist.map _)
    · cases held
  · exact sound

theorem Sound.setFieldTtl (sound : Sound hash) (field : Bytes) (deadline : ℕ) :
    Sound (hash.setFieldTtl field deadline) := by
  refine ⟨sound.distinct, ?_⟩
  intro ttls held emptied
  cases held
  have bound : (field, deadline) ∈ ((hash.ttls.getD ∅).insert field deadline).toList := by
    rw [OrdMap.mem_toList, OrdMap.get?_insert, if_pos rfl]
  rw [emptied] at bound
  cases bound

theorem Sound.edit (sound : Sound hash) (edit : HashEdit) : Sound (hash.edit edit) := by
  cases edit with
  | set field value thresholds => exact sound.set field value thresholds
  | setNx field value thresholds =>
    change Sound (hash.setNx field value thresholds).2
    unfold HashVal.setNx
    split_ifs
    · exact sound
    · exact sound.set field value thresholds
  | del field => exact sound.del field
  | setFieldTtl field deadline => exact sound.setFieldTtl field deadline
  | persistField field => exact sound.clearFieldTtl field
  | reapExpiredFields now =>
    have reap : ∀ (fields : List Bytes) (hash : HashVal), Sound hash →
        Sound (fields.foldl (fun rest field => (rest.del field).2) hash) := by
      intro fields
      induction fields with
      | nil => exact fun _ sound => sound
      | cons field fields ih => exact fun hash sound => ih _ (sound.del field)
    exact reap _ hash sound

/-- The create path: the pairs set one after the other. -/
def fromPairs (thresholds : EncodingThresholds) (pairs : List (Bytes × Bytes)) : HashVal :=
  pairs.foldl (fun hash pair => (hash.set pair.1 pair.2 thresholds).2) new

theorem sound_fromPairs (thresholds : EncodingThresholds) (pairs : List (Bytes × Bytes)) :
    Sound (fromPairs thresholds pairs) := by
  have grow : ∀ (rest : List (Bytes × Bytes)) (hash : HashVal), Sound hash →
      Sound (rest.foldl (fun hash pair => (hash.set pair.1 pair.2 thresholds).2) hash) := by
    intro rest
    induction rest with
    | nil => exact fun _ sound => sound
    | cons pair rest ih =>
      exact fun hash sound => ih _ (sound.set pair.1 pair.2 thresholds)
  exact grow pairs new sound_new

/-- Every pair fits the machine's counts. -/
def FitPairs (pairs : List (Bytes × Bytes)) : Prop :=
  ∀ pair ∈ pairs, pair.1.length ≤ usizeMax ∧ pair.2.length ≤ usizeMax

/-- Under the unlimited thresholds distinct fields are listed as they come. -/
private theorem foldl_set_unlimited (pairs entries : List (Bytes × Bytes))
    (distinct : ((entries ++ pairs).map Prod.fst).Nodup)
    (short : entries.length + pairs.length ≤ usizeMax) (fits : FitPairs pairs) :
    pairs.foldl (fun (hash : HashVal) pair => (hash.set pair.1 pair.2 .unlimited).2)
        ⟨.listPack entries, none⟩ = ⟨.listPack (entries ++ pairs), none⟩ := by
  induction pairs generalizing entries with
  | nil => simp
  | cons pair pairs ih =>
    simp only [length_cons] at short
    have regroup : entries ++ pair :: pairs = entries ++ [pair] ++ pairs := by simp
    have absent : (entries.lookup pair.1).isSome = false := by
      rw [Bool.eq_false_iff, Ne, lookup_isSome_iff]
      rw [map_append] at distinct
      exact fun member =>
        disjoint_of_nodup_append distinct member (by simp)
    have small : shouldConvert (entries ++ [(pair.1, pair.2)]).length pair.1.length
        pair.2.length .unlimited = false := by
      obtain ⟨field, value⟩ := fits pair (by simp)
      simp only [shouldConvert, EncodingThresholds.unlimited, Bool.or_eq_false_iff,
        decide_eq_false_iff_not, length_append, length_singleton]
      exact ⟨⟨by omega, decide_eq_false (not_lt.mpr field)⟩, decide_eq_false (not_lt.mpr value)⟩
    rw [foldl_cons, regroup]
    have written : (HashVal.set pair.1 pair.2 .unlimited ⟨.listPack entries, none⟩).2 =
        ⟨.listPack (entries ++ [pair]), none⟩ := by
      simp only [HashVal.set, absent, Bool.false_eq_true, if_false, small]
    rw [written]
    apply ih
    · rwa [← regroup]
    · simp only [length_append, length_singleton]
      omega
    · exact fun other member => fits other (by simp [member])

/-- A hash rebuilt from its pairs and deadlines, with the large form forced where recorded. -/
def rebuild (pairs : List (Bytes × Bytes)) (encoding : Encoding) (ttls : List (Bytes × ℕ)) :
    HashVal :=
  let hash := fromPairs .unlimited pairs
  let hash := if encoding = .hashTable then hash.forceLargeEncoding else hash
  ttls.foldl (fun hash ttl => hash.setFieldTtl ttl.1 ttl.2) hash

private theorem foldl_setFieldTtl (ttls : List (Bytes × ℕ)) (hash : HashVal) (listed : ttls ≠ []) :
    ttls.foldl (fun hash ttl => hash.setFieldTtl ttl.1 ttl.2) hash =
      { hash with ttls := some ((hash.ttls.getD ∅).insertAll ttls) } := by
  induction ttls generalizing hash with
  | nil => exact absurd rfl listed
  | cons ttl ttls ih =>
    rw [foldl_cons]
    cases ttls with
    | nil => rfl
    | cons next ttls =>
      rw [ih _ (by simp)]
      rfl

private theorem pairs_nodup (sound : Sound hash) : (hash.pairs.map Prod.fst).Nodup := by
  unfold pairs
  split
  · rename_i entries small
    exact sound.distinct entries small
  · rename_i table large
    exact (scanSort_perm.map Prod.fst).nodup_iff.mpr table.keys_nodup

theorem rebuild_pairs (sound : Sound hash) (short : hash.pairs.length ≤ usizeMax)
    (fits : FitPairs hash.pairs) : rebuild hash.pairs hash.encoding hash.fieldTtlPairs = hash := by
  have listed : fromPairs .unlimited hash.pairs = ⟨.listPack hash.pairs, none⟩ := by
    have built := foldl_set_unlimited hash.pairs [] (by simpa using pairs_nodup sound)
      (by simpa using short) fits
    simpa [fromPairs, new] using built
  -- The data come back in either form; the deadlines are then put beside them.
  have data : (if hash.encoding = .hashTable then
      (fromPairs .unlimited hash.pairs).forceLargeEncoding else fromPairs .unlimited hash.pairs) =
        ⟨hash.data, none⟩ := by
    rw [listed]
    obtain ⟨data, ttls⟩ := hash
    cases data with
    | listPack entries =>
      rw [if_neg (by cases ttls <;> simp [encoding])]
      rfl
    | hashTable table =>
      exact congrArg (fun table => (⟨.hashTable table, none⟩ : HashVal)) (OrdMap.insertAll_perm scanSort_perm)
  unfold rebuild
  dsimp only
  rw [data]
  obtain ⟨held, ttls⟩ := hash
  cases ttls with
  | none => rfl
  | some ttls =>
    have listed : fieldTtlPairs ⟨held, some ttls⟩ ≠ [] := sound.deadlines ttls rfl
    rw [foldl_setFieldTtl _ _ listed]
    change (⟨held, some ((∅ : OrdMap Bytes ℕ).insertAll ttls.toList)⟩ : HashVal) = _
    rw [OrdMap.insertAll_perm (List.Perm.refl _)]

end HashVal

end IronCache.Store
