import IronCache.Store.SetVal

/-!
# A set value is a set

Any calls on a `SetVal`, under any thresholds, are answered as by a finite set of byte strings.
-/

namespace IronCache.Store

inductive SetCall where
  | add (member : Bytes) (thresholds : EncodingThresholds)
  | remove (member : Bytes)
  | contains (member : Bytes)
  | len
  | members
  /-- `SPOP` with the numbers its generator draws. -/
  | pop (count : Option ℕ) (draws : ℕ → ℕ)
  | forceLargeEncoding
  | forceListpack

inductive SetAnswer where
  | flag (answer : Bool)
  | count (number : ℕ)
  | listed (members : List Bytes)
  | nothing

/-- The call on a plain set. -/
def SetCall.Plain (held : Finset Bytes) (answer : SetAnswer) (next : Finset Bytes) : SetCall → Prop
  | .add member _ => answer = .flag (member ∉ held) ∧ next = insert member held
  | .remove member => answer = .flag (member ∈ held) ∧ next = held.erase member
  | .contains member => answer = .flag (member ∈ held) ∧ next = held
  | .len => answer = .count held.card ∧ next = held
  | .members =>
    (∃ listed, answer = .listed listed ∧ listed.Nodup ∧ listed.toFinset = held) ∧ next = held
  | .pop count _ =>
    ∃ chosen, answer = .listed chosen ∧ chosen.Nodup ∧ chosen.toFinset ⊆ held ∧
      chosen.length = min (count.getD 1) held.card ∧ next = held \ chosen.toFinset
  | .forceLargeEncoding | .forceListpack => answer = .nothing ∧ next = held

/-- The calls on a plain set, one after the other. -/
def Plays (held : Finset Bytes) : List SetCall → List SetAnswer → Finset Bytes → Prop
  | [], answers, last => answers = [] ∧ last = held
  | call :: calls, answers, last =>
    ∃ answer rest next, answers = answer :: rest ∧ call.Plain held answer next ∧ Plays next calls rest last

namespace SetVal

/-- The first places after each was swapped with a drawn place that is not before it. -/
def chooseDistinct (members : List Bytes) (count : Option ℕ) (draws : ℕ → ℕ) : List Bytes :=
  let want := min (count.getD 1) members.length
  let swap (mixed : Array Bytes) (place : ℕ) :=
    mixed.swapIfInBounds place (place + draws place % (members.length - place))
  ((List.range want).foldl swap members.toArray).toList.take want

def popAll (chosen : List Bytes) (set : SetVal) : SetVal :=
  chosen.foldl (fun set member => (set.remove member).2) set

def call (set : SetVal) : SetCall → SetAnswer × SetVal
  | .add member thresholds =>
    (.flag (set.add member thresholds).1, (set.add member thresholds).2)
  | .remove member => (.flag (set.remove member).1, (set.remove member).2)
  | .contains member => (.flag (set.contains member), set)
  | .len => (.count set.len, set)
  | .members => (.listed set.members, set)
  | .pop count draws =>
    let chosen := chooseDistinct set.members count draws
    (.listed chosen, set.popAll chosen)
  | .forceLargeEncoding => (.nothing, set.forceLargeEncoding)
  | .forceListpack => (.nothing, set.forceListpack)

def run (set : SetVal) : List SetCall → List SetAnswer × SetVal
  | [] => ([], set)
  | call :: calls =>
    ((set.call call).1 :: ((set.call call).2.run calls).1, ((set.call call).2.run calls).2)

/-- Integers, a list, a table. -/
def level : SetVal → ℕ
  | .intSet _ => 0
  | .listPack _ => 1
  | .hashTable _ => 2

/-- The value lists exactly what is held; integers are sorted and canonical. -/
def Lists (held : Finset Bytes) (set : SetVal) : Prop :=
  set.members.Nodup ∧ set.members.toFinset = held ∧
    ∀ numbers, set = .intSet numbers → numbers.Pairwise (· < ·) ∧
      ∀ member, member ∈ held ↔ ∃ number ∈ numbers, parseCanonicalInt member = some number

variable {member other : Bytes} {numbers : List ℤ} {set : SetVal} {number : ℤ}

theorem mem_intSet (sound : Sound (.intSet numbers)) : member ∈ members (.intSet numbers) ↔
      ∃ number ∈ numbers, parseCanonicalInt member = some number := by
  constructor
  · intro listed
    obtain ⟨number, own, rfl⟩ := List.mem_map.mp listed
    exact ⟨number, own, parseCanonicalInt_intDecimalBytes (sound.2 number own)⟩
  · rintro ⟨number, own, parsed⟩
    exact List.mem_map.mpr ⟨number, own, (parseCanonicalInt_spec parsed).1⟩

theorem mem_parsed (sound : Sound (.intSet numbers)) (parsed : parseCanonicalInt member = some number) :
    member ∈ members (.intSet numbers) ↔ number ∈ numbers := by
  simp [mem_intSet sound, parsed]

theorem not_mem_odd (sound : Sound (.intSet numbers)) (odd : parseCanonicalInt member = none) :
    member ∉ members (.intSet numbers) := by
  simp [mem_intSet sound, odd]

theorem mem_hashTable {held : OrdSet Bytes} :
    member ∈ members (.hashTable held) ↔ member ∈ held.toList := scanSort_perm.mem_iff

private theorem contains_eq (sound : Sound set) : set.contains member = decide (member ∈ set.members) := by
  cases set with
  | intSet numbers =>
    cases parsed : parseCanonicalInt member with
    | some number => simp [contains, parsed, mem_parsed sound parsed]
    | none => simp [contains, parsed, not_mem_odd sound parsed]
  | listPack held =>
    simp only [contains, members, List.contains_eq_mem]
    exact decide_eq_decide.mpr Iff.rfl
  | hashTable held => simp [contains, mem_hashTable]

private theorem add_fst (sound : Sound set) :
    (set.add member thresholds).1 = decide (member ∉ set.members) := by
  have listed (held : List Bytes) : (addListpack held member thresholds).1 = decide (member ∉ held) := by
    unfold addListpack
    split_ifs with present <;> simp [present]
  cases set with
  | intSet numbers =>
    cases parsed : parseCanonicalInt member with
    | some number =>
      simp only [add, parsed, addInt, mem_parsed sound parsed]
      split_ifs with present <;> simp [present]
    | none =>
      simp only [add, parsed]
      exact listed _
  | listPack held => exact listed held
  | hashTable held => simp [add, mem_hashTable]

/-- Removing a member takes that member and no other, in every form. -/
theorem remove_spec (sound : Sound set) : (set.remove member).1 = decide (member ∈ set.members) ∧
      ∀ other, other ∈ (set.remove member).2.members ↔ other ≠ member ∧ other ∈ set.members := by
  cases set with
  | intSet numbers =>
    have kept := sound.edit (.remove member)
    cases parsed : parseCanonicalInt member with
    | some number =>
      simp only [edit, remove, parsed] at kept ⊢
      refine ⟨by simp [mem_parsed sound parsed], fun other => ?_⟩
      rw [mem_intSet kept, mem_intSet sound]
      have apart : numbers.Nodup := sound.1.imp ne_of_lt
      simp only [apart.mem_erase_iff]
      constructor
      · rintro ⟨own, ⟨differs, held⟩, read⟩
        refine ⟨?_, own, held, read⟩
        rintro rfl
        exact differs (Option.some.inj (read.symm.trans parsed))
      · rintro ⟨differs, own, held, read⟩
        refine ⟨own, ⟨?_, held⟩, read⟩
        rintro rfl
        exact differs ((parseCanonicalInt_spec read).1.symm.trans (parseCanonicalInt_spec parsed).1)
    | none =>
      have absent := not_mem_odd sound parsed
      simp only [remove, parsed, absent]
      exact ⟨rfl, fun other => ⟨fun held => ⟨fun same => absent (same ▸ held), held⟩, And.right⟩⟩
  | listPack held => exact ⟨rfl, fun other => List.Nodup.mem_erase_iff sound⟩
  | hashTable held =>
    refine ⟨by simp [remove, mem_hashTable], fun other => ?_⟩
    simp only [remove, mem_hashTable]
    exact OrdSet.mem_erase

theorem perm_swaps {members : List Bytes} (drawn : ℕ → ℕ) (places : List ℕ) (mixed : Array Bytes)
    (same : mixed.toList.Perm members) :
    (places.foldl (fun mixed place => mixed.swapIfInBounds place (drawn place)) mixed).toList.Perm
      members := by
  induction places generalizing mixed with
  | nil => exact same
  | cons place places ih =>
    refine ih _ (List.Perm.trans ?_ same)
    simp only [Array.swapIfInBounds_def]
    split_ifs with first second
    · exact Array.perm_iff_toList_perm.mp (Array.swap_perm first second)
    all_goals exact List.Perm.refl _

private theorem chooseDistinct_subperm (members : List Bytes) :
    (chooseDistinct members count draws).Subperm members :=
  (List.take_sublist _ _).subperm.trans (perm_swaps _ _ _ (List.Perm.refl members)).subperm

private theorem length_chooseDistinct (members : List Bytes) :
    (chooseDistinct members count draws).length = min (count.getD 1) members.length := by
  have mixed := (perm_swaps (fun place => place + draws place % (members.length - place))
    (List.range (min (count.getD 1) members.length)) _ (List.Perm.refl members)).length_eq
  rw [chooseDistinct, List.length_take, mixed]
  omega

private theorem popAll_spec (sound : Sound set) : Sound (set.popAll chosen) ∧
      ∀ other, other ∈ (set.popAll chosen).members ↔ other ∈ set.members ∧ other ∉ chosen := by
  induction chosen generalizing set with
  | nil => simpa [popAll] using sound
  | cons first chosen ih =>
    obtain ⟨kept, listed⟩ := ih (sound.edit (.remove first))
    refine ⟨kept, fun other => (listed other).trans ?_⟩
    rw [edit, (remove_spec sound).2, List.mem_cons]
    tauto

theorem Sound.lists (sound : Sound set) : set.Lists set.members.toFinset := by
  refine ⟨members_nodup sound, rfl, ?_⟩
  rintro numbers rfl
  exact ⟨sound.1, fun member => List.mem_toFinset.trans (mem_intSet sound)⟩

private theorem plain_call (sound : Sound set) (call : SetCall) :
    call.Plain set.members.toFinset (set.call call).1 (set.call call).2.members.toFinset ∧
      Sound (set.call call).2 := by
  cases call with
  | add member thresholds =>
    refine ⟨⟨by simp [SetVal.call, add_fst sound], ?_⟩, sound.add member thresholds⟩
    ext other
    simp [SetVal.call, mem_add]
  | remove member =>
    refine ⟨⟨by simp [SetVal.call, (remove_spec sound).1], ?_⟩, sound.edit (.remove member)⟩
    ext other
    simp [SetVal.call, (remove_spec sound).2]
  | contains member => exact ⟨⟨by simp [SetVal.call, contains_eq sound], rfl⟩, sound⟩
  | len =>
    refine ⟨⟨?_, rfl⟩, sound⟩
    rw [List.toFinset_card_of_nodup (members_nodup sound)]
    cases set <;> simp [SetVal.call, len, members, OrdSet.size, scanSort_perm.length_eq]
  | members => exact ⟨⟨⟨_, rfl, members_nodup sound, rfl⟩, rfl⟩, sound⟩
  | pop count draws =>
    obtain ⟨kept, listed⟩ := popAll_spec sound
    obtain ⟨taken, same, within⟩ := chooseDistinct_subperm set.members
    refine ⟨⟨_, rfl, same.nodup_iff.mp ((members_nodup sound).sublist within), ?_, ?_, ?_⟩, kept⟩
    · intro other own
      have placed := within.subset (same.mem_iff.mpr (List.mem_toFinset.mp own))
      exact List.mem_toFinset.mpr placed
    · rw [List.toFinset_card_of_nodup (members_nodup sound), length_chooseDistinct]
    · ext other
      simp [SetVal.call, listed]
  | forceLargeEncoding =>
    refine ⟨⟨rfl, ?_⟩, sound_convertToHashtable set⟩
    ext other
    simp [SetVal.call, forceLargeEncoding, mem_convertToHashtable]
  | forceListpack =>
    exact ⟨⟨rfl, by rw [SetVal.call, forceListpack, members_convertIntsetToListpack]⟩,
      sound.convertIntsetToListpack⟩

private theorem plays_run (sound : Sound set) (calls : List SetCall) :
    ∃ last, Plays set.members.toFinset calls (set.run calls).1 last ∧
      (set.run calls).2.Lists last := by
  induction calls generalizing set with
  | nil => exact ⟨_, ⟨rfl, rfl⟩, sound.lists⟩
  | cons call calls ih =>
    obtain ⟨plain, kept⟩ := plain_call sound call
    obtain ⟨last, plays, lists⟩ := ih kept
    exact ⟨last, ⟨_, _, _, rfl, plain, plays⟩, lists⟩

theorem level_convertToHashtable : set.convertToHashtable.level = 2 := by
  cases set <;> rfl

private theorem level_addListpack : 1 ≤ (addListpack held member thresholds).2.level := by
  unfold addListpack
  dsimp only
  split_ifs
  · exact le_rfl
  · rw [level_convertToHashtable]
    decide
  · exact le_rfl

private theorem level_add : set.level ≤ (set.add member thresholds).2.level := by
  cases set with
  | intSet numbers => exact Nat.zero_le _
  | listPack held => exact level_addListpack
  | hashTable held => exact le_rfl

theorem level_remove : (set.remove member).2.level = set.level := by
  cases set with
  | intSet numbers => cases parsed : parseCanonicalInt member <;> simp [remove, parsed, level]
  | listPack held => rfl
  | hashTable held => rfl

private theorem level_popAll (set : SetVal) : (set.popAll chosen).level = set.level := by
  induction chosen generalizing set with
  | nil => rfl
  | cons first chosen ih => exact (ih _).trans level_remove

private theorem level_call (call : SetCall) : set.level ≤ (set.call call).2.level := by
  cases call with
  | add member thresholds => exact level_add
  | remove member => exact level_remove.ge
  | contains | len | members => exact le_rfl
  | pop count draws => exact (level_popAll set).ge
  | forceLargeEncoding =>
    rw [SetVal.call, forceLargeEncoding, level_convertToHashtable]
    cases set <;> simp [level]
  | forceListpack => cases set <;> simp [SetVal.call, forceListpack, convertIntsetToListpack, level]

private theorem level_run (set : SetVal) (calls : List SetCall) : set.level ≤ (set.run calls).2.level := by
  induction calls generalizing set with
  | nil => exact le_rfl
  | cons call calls ih => exact (level_call call).trans (ih _)

private theorem run_append (set : SetVal) (calls more : List SetCall) :
    (set.run (calls ++ more)).2 = ((set.run calls).2.run more).2 := by
  induction calls generalizing set with
  | nil => rfl
  | cons call calls ih => exact ih _

/-- Every run answers as a plain set does, and the form never moves back. -/
theorem new_run_plays (calls more : List SetCall) :
    (∃ held, Plays ∅ calls (new.run calls).1 held ∧ (new.run calls).2.Lists held) ∧
      (new.run calls).2.level ≤ (new.run (calls ++ more)).2.level := by
  refine ⟨plays_run sound_new calls, ?_⟩
  rw [run_append]
  exact level_run _ more

end SetVal

end IronCache.Store
