import IronCache.Lib.OrdSet
import IronCache.Store.ListVal
import IronCache.Store.ScanHash

/-!
# Set values

`SetVal` of `ironcache-store/src/kvobj.rs`.
-/

namespace IronCache.Store

/-- Integers in order, a short list, or a table. -/
inductive SetVal where
  | intSet (numbers : List ℤ)
  | listPack (members : List Bytes)
  | hashTable (members : OrdSet Bytes)
deriving DecidableEq

namespace SetVal

def new : SetVal := .intSet []

def elementBytes : SetVal → ℕ
  | .intSet numbers => (numbers.map intDecimalLen).sum
  | .listPack members => bytesOf members
  | .hashTable members => bytesOf members.toList

def encoding : SetVal → Encoding
  | .intSet _ => .intSet
  | .listPack _ => .listPack
  | .hashTable _ => .hashTable

def len : SetVal → ℕ
  | .intSet numbers => numbers.length
  | .listPack members => members.length
  | .hashTable members => members.size

/-- The integer of a member that is written exactly as that integer is printed. -/
def parseCanonicalInt (member : Bytes) : Option ℤ :=
  (parseSetI64 member).filter fun number => intDecimalBytes number = member

/-- The members: by number, in insertion order, or in scan order. -/
def members : SetVal → List Bytes
  | .intSet numbers => numbers.map intDecimalBytes
  | .listPack members => members
  | .hashTable members => scanSort (fun member => member) members.toList

def contains (set : SetVal) (member : Bytes) : Bool :=
  match set with
  | .intSet numbers => (parseCanonicalInt member).any (numbers.contains ·)
  | .listPack members => members.contains member
  | .hashTable members => members.toList.contains member

def convertToHashtable : SetVal → SetVal
  | .intSet numbers => .hashTable (.ofList (numbers.map intDecimalBytes))
  | .listPack members => .hashTable (.ofList members)
  | .hashTable members => .hashTable members

def convertIntsetToListpack : SetVal → SetVal
  | .intSet numbers => .listPack (numbers.map intDecimalBytes)
  | set => set

def forceLargeEncoding : SetVal → SetVal := convertToHashtable

def forceListpack : SetVal → SetVal := convertIntsetToListpack

def listpackOverflows (entries maxMemberLen : ℕ) (thresholds : EncodingThresholds) : Bool :=
  thresholds.setMaxListpackEntries < entries || thresholds.setMaxListpackValue < maxMemberLen

def addInt (numbers : List ℤ) (number : ℤ) (member : Bytes) (thresholds : EncodingThresholds) :
    Bool × SetVal :=
  if number ∈ numbers then (false, .intSet numbers)
  else
    let grown := numbers.orderedInsert (· ≤ ·) number
    (true, if thresholds.setMaxIntsetEntries < grown.length then
        if listpackOverflows grown.length member.length thresholds then
          convertToHashtable (.intSet grown)
        else convertIntsetToListpack (.intSet grown)
      else .intSet grown)

def addListpack (members : List Bytes) (member : Bytes) (thresholds : EncodingThresholds) : Bool × SetVal :=
  if member ∈ members then (false, .listPack members)
  else
    let grown := members ++ [member]
    (true, if listpackOverflows grown.length member.length thresholds then
        convertToHashtable (.listPack grown)
      else .listPack grown)

/-- The encoding moves up as the set grows, and never back. -/
def add (member : Bytes) (thresholds : EncodingThresholds) : SetVal → Bool × SetVal
  | .intSet numbers =>
    match parseCanonicalInt member with
    | some number => addInt numbers number member thresholds
    -- A member that is no integer leaves the integer form first.
    | none => addListpack (numbers.map intDecimalBytes) member thresholds
  | .listPack members => addListpack members member thresholds
  | .hashTable members =>
    (decide (member ∉ members.toList), .hashTable (members.insert member))

def remove (member : Bytes) : SetVal → Bool × SetVal
  | .intSet numbers =>
    match parseCanonicalInt member with
    | some number => (decide (number ∈ numbers), .intSet (numbers.erase number))
    | none => (false, .intSet numbers)
  | .listPack members => (decide (member ∈ members), .listPack (members.erase member))
  | .hashTable members =>
    (decide (member ∈ members.toList), .hashTable (members.erase member))

end SetVal

inductive SetEdit where
  | add (member : Bytes) (thresholds : EncodingThresholds)
  | remove (member : Bytes)

namespace SetVal

def edit (set : SetVal) : SetEdit → SetVal
  | .add member thresholds => (set.add member thresholds).2
  | .remove member => (set.remove member).2

/-- Integers are sorted and of the machine's range; no form lists a member twice. -/
def Sound : SetVal → Prop
  | .intSet numbers => numbers.Pairwise (· < ·) ∧ ∀ number ∈ numbers, InI64 number
  | .listPack members => members.Nodup
  | .hashTable _ => True

variable {member : Bytes} {numbers : List ℤ} {set : SetVal}

variable {number : ℤ} {held added : List Bytes} {other : Bytes}

theorem parseCanonicalInt_spec (parsed : parseCanonicalInt member = some number) :
    intDecimalBytes number = member ∧ InI64 number := by
  obtain ⟨read, same⟩ := Option.filter_eq_some_iff.mp parsed
  refine ⟨by simpa using same, ?_⟩
  unfold parseSetI64 at read
  dsimp only at read
  split_ifs at read
  obtain ⟨magnitude, -, signed⟩ := Option.bind_eq_some_iff.mp read
  exact inI64_of_signed signed

theorem parseCanonicalInt_intDecimalBytes (fits : InI64 number) :
    parseCanonicalInt (intDecimalBytes number) = some number := by
  simp [parseCanonicalInt, parseSetI64_intDecimalBytes fits, Option.filter]

private theorem intDecimalBytes_injective (leftFits : InI64 left) (rightFits : InI64 right)
    (same : intDecimalBytes left = intDecimalBytes right) : left = right := by
  have read := parseSetI64_intDecimalBytes leftFits
  rw [same, parseSetI64_intDecimalBytes rightFits] at read
  exact (Option.some.inj read).symm

theorem nodup_intDecimalBytes (sorted : numbers.Pairwise (· < ·))
    (fits : ∀ number ∈ numbers, InI64 number) : (numbers.map intDecimalBytes).Nodup :=
  (List.nodup_map_iff_inj_on (sorted.imp ne_of_lt)).mpr fun left leftMember right rightMember =>
    intDecimalBytes_injective (fits left leftMember) (fits right rightMember)

theorem members_nodup (sound : Sound set) : set.members.Nodup := by
  cases set with
  | intSet numbers => exact nodup_intDecimalBytes sound.1 sound.2
  | listPack members => exact sound
  | hashTable members => exact scanSort_perm.nodup_iff.mpr members.nodup

theorem mem_convertToHashtable : member ∈ set.convertToHashtable.members ↔ member ∈ set.members := by
  cases set with
  | intSet numbers =>
    exact scanSort_perm.mem_iff.trans OrdSet.mem_ofList
  | listPack members => exact scanSort_perm.mem_iff.trans OrdSet.mem_ofList
  | hashTable members => rfl

theorem sound_convertToHashtable (set : SetVal) : Sound set.convertToHashtable := by
  cases set <;> exact trivial

theorem members_convertIntsetToListpack : set.convertIntsetToListpack.members = set.members := by
  cases set <;> rfl

theorem Sound.convertIntsetToListpack (sound : Sound set) : Sound set.convertIntsetToListpack := by
  cases set with
  | intSet numbers => exact nodup_intDecimalBytes sound.1 sound.2
  | listPack members => exact sound
  | hashTable members => exact trivial

/-- An added integer keeps the numbers sorted and in range. -/
private theorem sound_orderedInsert (sound : Sound (.intSet numbers)) (fresh : number ∉ numbers)
    (fits : InI64 number) : Sound (.intSet (numbers.orderedInsert (· ≤ ·) number)) := by
  constructor
  · have nodup : (numbers.orderedInsert (· ≤ ·) number).Nodup :=
      (List.perm_orderedInsert _ _ _).nodup_iff.mpr (List.nodup_cons.mpr ⟨fresh, sound.1.imp ne_of_lt⟩)
    have sorted : (numbers.orderedInsert (· ≤ ·) number).Pairwise (· ≤ ·) :=
      (sound.1.imp le_of_lt).orderedInsert _ _
    exact (sorted.and nodup).imp fun both => lt_of_le_of_ne both.1 both.2
  · intro other member
    rcases (List.perm_orderedInsert _ _ _).mem_iff.mp member with _ | ⟨_, earlier⟩
    · exact fits
    · exact sound.2 other earlier

private theorem sound_addListpack (distinct : held.Nodup) : Sound (addListpack held member thresholds).2 := by
  unfold addListpack
  dsimp only
  split_ifs with present overflow
  · exact distinct
  · exact sound_convertToHashtable (.listPack (held ++ [member]))
  · exact List.nodup_append_comm.mp (List.nodup_cons.mpr ⟨present, distinct⟩)

private theorem mem_addListpack :
    other ∈ (addListpack held member thresholds).2.members ↔ other = member ∨ other ∈ held := by
  have grown : other ∈ members (.listPack (held ++ [member])) ↔ other = member ∨ other ∈ held := by
    simp [members, or_comm]
  unfold addListpack
  dsimp only
  split_ifs with present overflow
  · refine ⟨.inr, ?_⟩
    rintro (rfl | earlier)
    · exact present
    · exact earlier
  · exact mem_convertToHashtable.trans grown
  · exact grown

private theorem sound_addInt (sound : Sound (.intSet numbers)) (fits : InI64 number) :
    Sound (addInt numbers number member thresholds).2 := by
  unfold addInt
  dsimp only
  split_ifs with present full overflow
  · exact sound
  · exact sound_convertToHashtable (.intSet (numbers.orderedInsert (· ≤ ·) number))
  · exact (sound_orderedInsert sound present fits).convertIntsetToListpack
  · exact sound_orderedInsert sound present fits

private theorem mem_addInt (printed : intDecimalBytes number = member) :
    other ∈ (addInt numbers number member thresholds).2.members ↔
      other = member ∨ other ∈ members (.intSet numbers) := by
  subst printed
  have grown : other ∈ members (.intSet (numbers.orderedInsert (· ≤ ·) number)) ↔
      other = intDecimalBytes number ∨ other ∈ members (.intSet numbers) := by
    unfold members
    rw [((List.perm_orderedInsert (· ≤ ·) number numbers).map intDecimalBytes).mem_iff]
    simp
  unfold addInt
  dsimp only
  split_ifs with present full overflow
  · refine ⟨.inr, ?_⟩
    rintro (rfl | earlier)
    · exact List.mem_map.mpr ⟨number, present, rfl⟩
    · exact earlier
  · exact mem_convertToHashtable.trans grown
  · exact grown
  · exact grown

theorem Sound.add (sound : Sound set) (member : Bytes) (thresholds : EncodingThresholds) :
    Sound (set.add member thresholds).2 := by
  cases set with
  | intSet numbers =>
    unfold SetVal.add
    dsimp only
    split
    · rename_i number parsed
      exact sound_addInt sound (parseCanonicalInt_spec parsed).2
    · exact sound_addListpack (nodup_intDecimalBytes sound.1 sound.2)
  | listPack held => exact sound_addListpack sound
  | hashTable held => exact trivial

/-- Adding a member adds that member and no other, in every form. -/
theorem mem_add : other ∈ (set.add member thresholds).2.members ↔ other = member ∨ other ∈ set.members := by
  cases set with
  | intSet numbers =>
    unfold SetVal.add
    dsimp only
    split
    · rename_i number parsed
      exact mem_addInt (parseCanonicalInt_spec parsed).1
    · exact mem_addListpack
  | listPack held => exact mem_addListpack
  | hashTable held =>
    have inserted : other ∈ (held.insert member).toList ↔ other = member ∨ other ∈ held.toList :=
      OrdSet.mem_insert
    simpa only [SetVal.add, members, scanSort_perm.mem_iff] using inserted

theorem Sound.edit (sound : Sound set) (edit : SetEdit) : Sound (set.edit edit) := by
  cases edit with
  | add member thresholds => exact sound.add member thresholds
  | remove member =>
    cases set with
    | intSet numbers =>
      simp only [SetVal.edit, remove]
      split
      · exact ⟨sound.1.sublist List.erase_sublist,
          fun number held => sound.2 number (List.mem_of_mem_erase held)⟩
      · exact sound
    | listPack held => exact List.Nodup.sublist List.erase_sublist sound
    | hashTable held => exact trivial

def fromMembers (members : List Bytes) (thresholds : EncodingThresholds) : SetVal :=
  members.foldl (fun set member => (set.add member thresholds).2) new

theorem foldl_add (thresholds : EncodingThresholds) (added : List Bytes) (sound : Sound set) :
    Sound (added.foldl (fun set member => (set.add member thresholds).2) set) ∧
      ∀ member, member ∈ (added.foldl (fun set member => (set.add member thresholds).2) set).members ↔
        member ∈ added ∨ member ∈ set.members := by
  induction added generalizing set with
  | nil => simpa using sound
  | cons first added ih =>
    obtain ⟨kept, listed⟩ := ih (sound.add first thresholds)
    refine ⟨kept, fun member => ?_⟩
    rw [List.foldl_cons, listed, mem_add, List.mem_cons]
    tauto

theorem sound_new : Sound new := ⟨.nil, by simp⟩

theorem sound_fromMembers (members : List Bytes) (thresholds : EncodingThresholds) :
    Sound (fromMembers members thresholds) := (foldl_add thresholds members sound_new).1

private theorem mem_fromMembers : member ∈ (fromMembers added thresholds).members ↔ member ∈ added := by
  rw [fromMembers, (foldl_add thresholds added sound_new).2]
  simp [new, members]

/-- Under the unlimited thresholds a set leaves the integer form only for a member that is no
integer, and never becomes a table. -/
def Natural (set : SetVal) : Prop :=
  match set with
  | .intSet _ => True
  | .listPack held => ∃ member ∈ held, parseCanonicalInt member = none
  | .hashTable _ => False

private theorem listpackOverflows_unlimited (few : entries ≤ usizeMax) (short : memberLen ≤ usizeMax) :
    listpackOverflows entries memberLen .unlimited = false := by
  exact Bool.or_eq_false_iff.mpr ⟨decide_eq_false (not_lt.mpr few), decide_eq_false (not_lt.mpr short)⟩

private theorem natural_addListpack (odd : parseCanonicalInt member = none ∨ Natural (.listPack held))
    (few : held.length + 1 ≤ usizeMax) (short : member.length ≤ usizeMax) :
    Natural (addListpack held member .unlimited).2 ∧
      (addListpack held member .unlimited).2.len ≤ held.length + 1 := by
  have room : listpackOverflows (held ++ [member]).length member.length .unlimited = false :=
    listpackOverflows_unlimited (by simpa using few) short
  unfold addListpack
  split_ifs with present
  · refine ⟨?_, Nat.le_succ _⟩
    rcases odd with odd | natural
    · exact ⟨member, present, odd⟩
    · exact natural
  dsimp only
  rw [room, if_neg Bool.false_ne_true]
  refine ⟨?_, by simp [len]⟩
  rcases odd with odd | ⟨other, listed, odd⟩
  · exact ⟨member, by simp, odd⟩
  · exact ⟨other, by simp [listed], odd⟩

theorem Natural.add (natural : Natural set) (few : set.len + 1 ≤ usizeMax)
    (short : member.length ≤ usizeMax) :
    Natural (set.add member .unlimited).2 ∧ (set.add member .unlimited).2.len ≤ set.len + 1 := by
  cases set with
  | intSet numbers =>
    unfold SetVal.add
    dsimp only
    split
    · rename_i number parsed
      have length : (numbers.orderedInsert (· ≤ ·) number).length = numbers.length + 1 :=
        List.orderedInsert_length _ _ _
      have room : ¬ EncodingThresholds.unlimited.setMaxIntsetEntries <
          (numbers.orderedInsert (· ≤ ·) number).length := by
        rw [length]
        exact not_lt.mpr few
      unfold addInt
      split_ifs with present
      · exact ⟨trivial, Nat.le_succ _⟩
      dsimp only
      rw [if_neg room]
      exact ⟨trivial, length.le⟩
    · rename_i odd
      have fits : (numbers.map intDecimalBytes).length + 1 ≤ usizeMax := by simpa [len] using few
      have listed := natural_addListpack (.inl odd) fits short
      simpa [len] using listed
  | listPack held => exact natural_addListpack (.inr natural) few short
  | hashTable held => exact natural.elim

theorem Natural.foldl_add (short : ∀ member ∈ added, member.length ≤ usizeMax)
    (natural : Natural set) (few : set.len + added.length ≤ usizeMax) :
    Natural (added.foldl (fun set member => (set.add member .unlimited).2) set) := by
  induction added generalizing set with
  | nil => exact natural
  | cons first added ih =>
    simp only [List.length_cons] at few
    obtain ⟨next, length⟩ := natural.add (by omega) (short first (by simp))
    exact ih (fun member listed => short member (by simp [listed])) next
      ((Nat.add_le_add_right length _).trans (by omega))

/-- A set rebuilt from its members, with the recorded form forced. -/
def rebuild (members : List Bytes) (encoding : Encoding) : SetVal :=
  let set := fromMembers members .unlimited
  match encoding with
  | .hashTable => set.forceLargeEncoding
  | .listPack => set.forceListpack
  | _ => set

/-- Two sets of one form with the same members. -/
def Same (left right : SetVal) : Prop :=
  left.encoding = right.encoding ∧ ∀ member, member ∈ left.members ↔ member ∈ right.members

/-- The rebuilt set has the form and the members of the set. -/
theorem rebuild_members (sound : Sound set) (few : set.members.length ≤ usizeMax)
    (short : ∀ member ∈ set.members, member.length ≤ usizeMax) :
    Same (rebuild set.members set.encoding) set ∧ Sound (rebuild set.members set.encoding) := by
  have built : Sound (fromMembers set.members .unlimited) := sound_fromMembers _ _
  have listed : ∀ member, member ∈ (fromMembers set.members .unlimited).members ↔
      member ∈ set.members := fun member => mem_fromMembers
  have natural : Natural (fromMembers set.members .unlimited) :=
    Natural.foldl_add short trivial (by simpa [new, len] using few)
  cases set with
  | intSet numbers =>
    refine ⟨⟨?_, listed⟩, built⟩
    change (fromMembers (members (.intSet numbers)) .unlimited).encoding = .intSet
    cases shape : fromMembers (members (.intSet numbers)) .unlimited with
    | intSet built => rfl
    | listPack held =>
      -- A member that is no integer would have to be among the printed integers.
      rw [shape] at natural listed
      obtain ⟨member, held, odd⟩ := natural
      obtain ⟨number, own, rfl⟩ := List.mem_map.mp ((listed member).mp held)
      rw [parseCanonicalInt_intDecimalBytes (sound.2 number own)] at odd
      cases odd
    | hashTable held =>
      rw [shape] at natural
      exact natural.elim
  | listPack held =>
    refine ⟨⟨?_, ?_⟩, built.convertIntsetToListpack⟩
    · change (convertIntsetToListpack (fromMembers held .unlimited)).encoding = .listPack
      change Natural (fromMembers held .unlimited) at natural
      cases shape : fromMembers held .unlimited with
      | intSet numbers => rfl
      | listPack members => rfl
      | hashTable members =>
        rw [shape] at natural
        exact natural.elim
    · intro member
      change member ∈ (convertIntsetToListpack (fromMembers held .unlimited)).members ↔ _
      rw [members_convertIntsetToListpack]
      exact listed member
  | hashTable held =>
    refine ⟨⟨?_, fun member => mem_convertToHashtable.trans (listed member)⟩, sound_convertToHashtable _⟩
    change (convertToHashtable _).encoding = .hashTable
    cases fromMembers (members (.hashTable held)) .unlimited <;> rfl

end SetVal

end IronCache.Store
