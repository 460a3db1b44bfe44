import IronCache.Dash.Growth

/-!
# The index as a multiset

Runs of calls on an index and its clones, and the multisets of entries they amount to.
-/

namespace IronCache.Dash

open List

variable {α : Type}

/-- A call, with what its caller does through the entry it gets: `occupied` is the new record or
`none` to remove it, `vacant` the record to insert or `none` to let the entry go. -/
inductive Call (α : Type) where
  | find (hash : BitVec 64) (eq : α → Bool)
  | findMut (hash : BitVec 64) (eq : α → Bool) (change : α → α)
  | entry (hash : BitVec 64) (eq : α → Bool) (occupied : α → Option α) (vacant : Option α)
  | findEntry (hash : BitVec 64) (eq : α → Bool) (occupied : α → Option α)
  | reserve (additional : BitVec 64)
  | iter
  | len

inductive Answer (α : Type) where
  | record (found : Option α)
  | records (listed : List α)
  | number (count : ℕ)
  | done

namespace DashIndex

/-- What the caller of `entry` or `find_entry` does with a record that matched. -/
def settle (index : DashIndex α) (si : ℕ) (loc : Loc) (occupied : α → Option α) :
    Option (Answer α × DashIndex α) := do
  let item ← index.get si loc
  match occupied item with
  | some other => some (.record (some item), index.write si loc other)
  | none => some (.record (some item), index.remove si loc)

def apply (hasher : α → BitVec 64) (index : DashIndex α) : Call α → Option (Answer α × DashIndex α)
  | .find hash eq => (index.find hash eq).map fun found => (.record found, index)
  | .findMut hash eq change =>
    (index.findMut hash eq change).map fun result => (.record result.1, result.2)
  | .entry hash eq occupied vacant => do
      match ← index.entry hasher hash eq with
      | (.occupied si loc, index) => index.settle si loc occupied
      | (.vacant si fp, index) =>
        match vacant with
        | some value => some (.record none, index.insert si fp value)
        | none => some (.record none, index)
  | .findEntry hash eq occupied => do
      match ← index.findEntry hash eq with
      | some (si, loc) => index.settle si loc occupied
      | none => some (.record none, index)
  | .reserve additional => (index.reserve additional).map fun next => (.done, next)
  | .iter => some (.records index.iter, index)
  | .len => some (.number index.len, index)

end DashIndex

/-- A step of a program that holds some indexes: a call on one of them, or a new clone of one. -/
inductive Act (α : Type) where
  | invoke (handle : ℕ) (call : Call α)
  | clone (handle : ℕ)

def Act.apply (hasher : α → BitVec 64) (tables : List (DashIndex α)) :
    Act α → Option (Answer α × List (DashIndex α))
  | .invoke handle call =>
    match tables[handle]? with
    | some index => do
        let (answer, index) ← index.apply hasher call
        some (answer, tables.set handle index)
    | none => some (.done, tables)
  | .clone handle => some (.done, tables ++ tables[handle]?.toList)

def run (hasher : α → BitVec 64) :
    List (DashIndex α) → List (Act α) → Option (List (Answer α) × List (DashIndex α))
  | tables, [] => some ([], tables)
  | tables, act :: acts => do
      let (answer, tables) ← act.apply hasher tables
      let (answers, tables) ← run hasher tables acts
      some (answer :: answers, tables)

/-- What an index is for: the entries it holds, and whether it was written to or reserved for. -/
structure Bag (α : Type) where
  contents : Multiset α
  opened : Bool

/-- A lookup finds an entry exactly if there is one. -/
def Finds (contents : Multiset α) (eq : α → Bool) : Option α → Prop
  | some item => item ∈ contents ∧ eq item = true
  | none => ∀ item ∈ contents, eq item = false

/-- The entry found is exchanged or removed; if there is none, one may come in. -/
def Replaced (contents next : Multiset α) (occupied : α → Option α) (vacant : Option α) : Option α → Prop
  | some item => ∃ rest, contents = item ::ₘ rest ∧ next = (occupied item).elim rest (· ::ₘ rest)
  | none => next = vacant.elim contents (· ::ₘ contents)

def Call.Meets (bag : Bag α) (call : Call α) (answer : Answer α) (next : Bag α) : Prop :=
  match call, answer with
  | .find _ eq, .record found => Finds bag.contents eq found ∧ next = bag
  | .findMut _ eq change, .record found => Finds bag.contents eq found ∧
      Replaced bag.contents next.contents (some ∘ change) none found ∧ next.opened = bag.opened
  | .entry _ eq occupied vacant, .record found => Finds bag.contents eq found ∧
      Replaced bag.contents next.contents occupied vacant found ∧ next.opened = true
  | .findEntry _ eq occupied, .record found => Finds bag.contents eq found ∧
      Replaced bag.contents next.contents occupied none found ∧ next.opened = bag.opened
  | .reserve additional, .done => next = ⟨bag.contents, bag.opened || additional != 0⟩
  | .iter, .records listed => (listed : Multiset α) = bag.contents ∧ next = bag
  | .len, .number count => count = bag.contents.card ∧ next = bag
  | _, _ => False

def Act.Meets (bags : List (Bag α)) (act : Act α) (answer : Answer α) (next : List (Bag α)) : Prop :=
  match act with
  | .invoke handle call =>
    match bags[handle]? with
    | some bag => ∃ after, call.Meets bag answer after ∧ next = bags.set handle after
    | none => answer = .done ∧ next = bags
  | .clone handle => answer = .done ∧ next = bags ++ bags[handle]?.toList

inductive Traces : List (Bag α) → List (Act α) → List (Answer α) → List (Bag α) → Prop where
  | nil : Traces bags [] [] bags
  | cons : act.Meets bags answer middle → Traces middle acts answers last →
      Traces bags (act :: acts) (answer :: answers) last

/-- What the callers promise: equal entries have the hash that is looked up, an entry that is
written has it too, and a machine word can count the entries that are reserved for. -/
def Call.Keeps (hasher : α → BitVec 64) (index : DashIndex α) : Call α → Prop
  | .find hash eq => ∀ item, eq item = true → hasher item = hash
  | .findMut hash eq change =>
    ∀ item, eq item = true → hasher item = hash ∧ hasher (change item) = hash
  | .entry hash eq occupied vacant =>
    (∀ item, eq item = true → hasher item = hash ∧
      ∀ other ∈ occupied item, hasher other = hash) ∧ ∀ value ∈ vacant, hasher value = hash
  | .findEntry hash eq occupied => ∀ item, eq item = true → hasher item = hash ∧
      ∀ other ∈ occupied item, hasher other = hash
  | .reserve additional => index.len + additional.toNat < 2 ^ 64
  | _ => True

def Act.Keeps (hasher : α → BitVec 64) (tables : List (DashIndex α)) : Act α → Prop
  | .invoke handle call => ∀ index, tables[handle]? = some index → call.Keeps hasher index
  | .clone _ => True

/-- The promise at every call of a run, about the index as the calls before it left it. -/
def Keeping (hasher : α → BitVec 64) : List (DashIndex α) → List (Act α) → Prop
  | _, [] => True
  | tables, act :: acts => act.Keeps hasher tables ∧
      ∀ answer next, act.apply hasher tables = some (answer, next) → Keeping hasher next acts

namespace DashIndex

variable {hasher : α → BitVec 64} {index : DashIndex α}

/-- A record that stands at a place. -/
def Holds (index : DashIndex α) (si : ℕ) (loc : Loc) (item : α) : Prop :=
  ∃ seg fp, index.segments[si]? = some seg ∧ seg.At loc fp item ∧ index.get si loc = some item

variable {hash : BitVec 64} {eq : α → Bool}

theorem holds_of_locate (found : index.segments[si]? = some seg)
    (located : seg.locate (fingerprint hash) eq = some loc) :
    ∃ item, index.Holds si loc item ∧ item ∈ index.iter ∧ eq item = true := by
  obtain ⟨item, there, got, equal⟩ := Segment.locate_eq_some located
  have member : (fingerprint hash, item) ∈ index.stored :=
    mem_flatMap.mpr ⟨seg, mem_of_getElem? found, Segment.mem_records.mpr ⟨loc, there⟩⟩
  refine ⟨item, ⟨seg, _, found, there, ?_⟩, ?_, equal⟩
  · unfold get
    rw [found]
    exact got
  · rw [iter_eq]
    exact mem_map.mpr ⟨_, member, rfl⟩

section

variable (sound : index.Sound hasher)
include sound

section

variable (keeps : ∀ item, eq item = true → hasher item = hash)
include keeps

/-- A probe of the segment of a hash misses nothing that has the hash. -/
theorem Sound.absent_of_locate (named : index.directory[index.dirIndex hash]? = some si)
    (found : index.segments[si]? = some seg) (missed : seg.locate (fingerprint hash) eq = none) :
    ∀ item ∈ index.iter, eq item = false := by
  intro item member
  by_contra equal
  have same := keeps item (by simpa using equal)
  exact equal (Segment.locate_eq_none missed ((sound.mem_routed named found same).mpr member))

/-- What a probe comes back with. -/
def Probed (index : DashIndex α) (eq : α → Bool) : Option (ℕ × Loc) → Prop
  | some (si, loc) => ∃ item, index.Holds si loc item ∧ item ∈ index.iter ∧ eq item = true
  | none => ∀ item ∈ index.iter, eq item = false

theorem Sound.probe : ∃ found, index.probe hash eq = some found ∧ index.Probed eq found := by
  obtain ⟨si, seg, named, found, -⟩ := sound.routed hash
  have routed : index.route hash = some (some si) := by
    unfold route
    rw [if_neg (by simpa using sound.nonempty), named]
    rfl
  refine ⟨(seg.locate (fingerprint hash) eq).map fun loc => (si, loc), ?_, ?_⟩
  · unfold DashIndex.probe
    rw [routed]
    simp only [Option.bind_eq_bind, Option.bind_some, found]
  · cases located : seg.locate (fingerprint hash) eq with
    | none => exact sound.absent_of_locate keeps named found located
    | some loc => exact holds_of_locate found located

theorem Sound.find : ∃ found, index.find hash eq = some found ∧ Finds (index.iter : Multiset α) eq found := by
  obtain ⟨place, probed, outcome⟩ := sound.probe keeps
  unfold DashIndex.find
  rw [probed, Option.bind_eq_bind, Option.bind_some]
  match place, outcome with
  | none, absent => exact ⟨none, rfl, absent⟩
  | some (si, loc), ⟨item, ⟨seg, fp, there, at_loc, got⟩, member, equal⟩ =>
    exact ⟨some item, congrArg (Option.map some) got, member, equal⟩

omit keeps in
theorem Sound.findMut (keeps : ∀ item, eq item = true → hasher item = hash ∧ hasher (change item) = hash) :
    ∃ found next, index.findMut hash eq change = some (found, next) ∧ next.Sound hasher ∧
      Finds (index.iter : Multiset α) eq found ∧
      Replaced (index.iter : Multiset α) (next.iter : Multiset α) (some ∘ change) none found := by
  obtain ⟨place, probed, outcome⟩ := sound.probe fun item equal => (keeps item equal).1
  unfold DashIndex.findMut
  rw [probed, Option.bind_eq_bind, Option.bind_some]
  match place, outcome with
  | none, absent => exact ⟨none, index, rfl, sound, absent, rfl⟩
  | some (si, loc), ⟨item, ⟨seg, fp, there, at_loc, got⟩, member, equal⟩ =>
    obtain ⟨was, will⟩ := keeps item equal
    obtain ⟨after, rest, before, written⟩ := sound.write there at_loc (will.trans was.symm)
    dsimp only
    rw [got, Option.bind_eq_bind, Option.bind_some]
    exact ⟨some item, _, rfl, after, ⟨member, equal⟩, rest, Multiset.coe_eq_coe.mpr before,
      Multiset.coe_eq_coe.mpr written⟩

omit keeps in
theorem Sound.settle (there : index.Holds si loc item)
    (keeps : ∀ other ∈ occupied item, hasher other = hasher item) (vacant : Option α) :
    ∃ next, index.settle si loc occupied = some (.record (some item), next) ∧
      next.Sound hasher ∧
      Replaced (index.iter : Multiset α) (next.iter : Multiset α) occupied vacant (some item) := by
  obtain ⟨seg, fp, found, at_loc, got⟩ := there
  unfold DashIndex.settle
  rw [got, Option.bind_eq_bind, Option.bind_some]
  cases outcome : occupied item with
  | none =>
    obtain ⟨after, left⟩ := sound.remove found at_loc
    refine ⟨_, rfl, after, (index.remove si loc).iter, ?_, ?_⟩
    · exact Multiset.coe_eq_coe.mpr left
    · rw [outcome]
      rfl
  | some other =>
    obtain ⟨after, rest, before, written⟩ := sound.write found at_loc (keeps other outcome)
    refine ⟨_, rfl, after, rest, ?_, ?_⟩
    · exact Multiset.coe_eq_coe.mpr before
    · rw [outcome]
      exact Multiset.coe_eq_coe.mpr written

/-- What `entry` hands out. -/
def Granted (index next : DashIndex α) (hash : BitVec 64) (eq : α → Bool) : Entry → Prop
  | .occupied si loc => ∃ item, next.Holds si loc item ∧ item ∈ index.iter ∧ eq item = true
  | .vacant si fp => (∀ item ∈ index.iter, eq item = false) ∧ fp = fingerprint hash ∧
      next.directory[next.dirIndex hash]? = some si

theorem Sound.entry : ∃ granted next, index.entry hasher hash eq = some (granted, next) ∧ next.Sound hasher ∧
      next.iter.Perm index.iter ∧ index.Granted next hash eq granted := by
  obtain ⟨si, seg, named, found, -⟩ := sound.routed hash
  unfold DashIndex.entry
  simp only [sound.ensureInit, named, found, Option.bind_eq_bind, Option.bind_some]
  cases located : seg.locate (fingerprint hash) eq with
  | some loc => exact ⟨_, index, rfl, sound, Perm.refl _, holds_of_locate found located⟩
  | none =>
    have enough : maxGlobalDepth < maxSplits + 1 + seg.localDepth :=
      lt_of_lt_of_le (by decide) (Nat.le_add_right _ _)
    obtain ⟨next, made, after, kept⟩ := sound.makeRoom (maxSplits + 1) 0 named found enough
    obtain ⟨sj, -, routed, -, -⟩ := after.routed hash
    rw [made, Option.bind_some, routed, Option.bind_some]
    exact ⟨_, next, rfl, after, kept, sound.absent_of_locate keeps named found located, rfl, routed⟩

end

/-- An index and the entries it stands for. -/
structure Represents (hasher : α → BitVec 64) (index : DashIndex α) (bag : Bag α) : Prop where
  contents : (index.iter : Multiset α) = bag.contents
  shape : if bag.opened then index.Sound hasher else index = new

omit sound in
theorem represents_new : (new : DashIndex α).Represents hasher ⟨0, false⟩ := ⟨rfl, rfl⟩

theorem Sound.represents : index.Represents hasher ⟨index.iter, true⟩ :=
  ⟨rfl, sound⟩

variable {bag : Bag α} {call : Call α}

omit sound in
theorem Represents.cases (represents : index.Represents hasher bag) :
    (index = new ∧ bag = ⟨0, false⟩) ∨ (index.Sound hasher ∧ bag = ⟨index.iter, true⟩) := by
  obtain ⟨contents, opened⟩ := bag
  obtain ⟨rfl, shape⟩ := represents
  cases opened with
  | false =>
    have unwritten : index = new := shape
    exact .inl ⟨unwritten, by rw [unwritten]; rfl⟩
  | true => exact .inr ⟨shape, rfl⟩

theorem Sound.step (keeps : call.Keeps hasher index) :
    ∃ answer next bag, index.apply hasher call = some (answer, next) ∧
      call.Meets ⟨index.iter, true⟩ answer bag ∧ next.Represents hasher bag := by
  cases call with
  | find hash eq =>
    obtain ⟨found, got, finds⟩ := sound.find keeps
    exact ⟨_, index, _, congrArg (Option.map _) got, ⟨finds, rfl⟩, sound.represents⟩
  | findMut hash eq change =>
    obtain ⟨found, next, got, after, finds, replaced⟩ := sound.findMut keeps
    exact ⟨_, next, ⟨next.iter, true⟩, congrArg (Option.map _) got, ⟨finds, replaced, rfl⟩, after.represents⟩
  | entry hash eq occupied vacant =>
    obtain ⟨granted, next, got, after, kept, outcome⟩ :=
      sound.entry fun item equal => (keeps.1 item equal).1
    have same : (next.iter : Multiset α) = index.iter := Multiset.coe_eq_coe.mpr kept
    simp only [apply, got, Option.bind_eq_bind, Option.bind_some]
    match granted, outcome with
    | .occupied si loc, ⟨item, there, member, equal⟩ =>
      obtain ⟨was, will⟩ := keeps.1 item equal
      obtain ⟨last, settled, fine, replaced⟩ := after.settle there
        (fun other written => (will other written).trans was.symm) vacant
      rw [same] at replaced
      exact ⟨_, last, ⟨last.iter, true⟩, settled, ⟨⟨member, equal⟩, replaced, rfl⟩, fine.represents⟩
    | .vacant si fp, ⟨absent, stamp, routed⟩ =>
      cases vacant with
      | none => exact ⟨_, next, ⟨next.iter, true⟩, rfl, ⟨absent, same, rfl⟩, after.represents⟩
      | some value =>
        have hashed := keeps.2 value rfl
        subst hashed
        obtain ⟨fine, added⟩ := after.insert routed
        subst stamp
        have more : ((next.insert si (fingerprint (hasher value)) value).iter : Multiset α) =
            value ::ₘ (index.iter : Multiset α) := by
          rw [← same]
          exact Multiset.coe_eq_coe.mpr added
        exact ⟨_, _, ⟨_, true⟩, rfl, ⟨absent, more, rfl⟩, fine.represents⟩
  | findEntry hash eq occupied =>
    obtain ⟨found, probed, outcome⟩ := sound.probe fun item equal => (keeps item equal).1
    simp only [apply, DashIndex.findEntry, probed, Option.bind_eq_bind, Option.bind_some]
    match found, outcome with
    | none, absent => exact ⟨_, _, _, rfl, ⟨absent, rfl, rfl⟩, sound.represents⟩
    | some (si, loc), ⟨item, there, member, equal⟩ =>
      obtain ⟨was, will⟩ := keeps item equal
      obtain ⟨last, settled, fine, replaced⟩ := sound.settle there
        (fun other written => (will other written).trans was.symm) none
      exact ⟨_, last, ⟨last.iter, true⟩, settled, ⟨⟨member, equal⟩, replaced, rfl⟩, fine.represents⟩
  | reserve additional =>
    obtain ⟨next, reserved, after, kept⟩ := sound.reserve keeps
    exact ⟨_, next, _, congrArg (Option.map _) reserved, rfl, ⟨by rw [kept], after⟩⟩
  | iter => exact ⟨_, _, _, rfl, ⟨rfl, rfl⟩, sound.represents⟩
  | len => exact ⟨_, _, _, rfl, ⟨sound.length_iter.symm, rfl⟩, sound.represents⟩

omit sound in
private theorem step_new (keeps : call.Keeps hasher new) :
    ∃ answer next bag, (new : DashIndex α).apply hasher call = some (answer, next) ∧
      call.Meets ⟨0, false⟩ answer bag ∧ next.Represents hasher bag := by
  have nothing : ∀ eq : α → Bool, ∀ item ∈ (0 : Multiset α), eq item = false :=
    fun eq item member => absurd member (Multiset.notMem_zero item)
  cases call with
  | find hash eq => exact ⟨_, _, _, rfl, ⟨nothing eq, rfl⟩, represents_new⟩
  | findMut hash eq change => exact ⟨_, _, _, rfl, ⟨nothing eq, rfl, rfl⟩, represents_new⟩
  | entry hash eq occupied vacant =>
    have ensured : (Call.entry hash eq occupied vacant).Keeps hasher new.ensureInit := keeps
    obtain ⟨answer, next, bag, got, meets, represents⟩ := sound_ensureInit_new.step ensured
    refine ⟨answer, next, bag, got, ?_, represents⟩
    cases answer <;> exact meets
  | findEntry hash eq occupied => exact ⟨_, _, _, rfl, ⟨nothing eq, rfl, rfl⟩, represents_new⟩
  | reserve additional =>
    obtain ⟨depth, low, reserved⟩ := @reserve_new α additional
    refine ⟨.done, _, ⟨0, additional != 0⟩, congrArg (Option.map _) reserved, rfl, ?_⟩
    by_cases none : additional = 0
    · rw [if_pos none, none]
      exact represents_new
    have sound : (presized depth : DashIndex α).Sound hasher := sound_presized low
    rw [if_neg none, bne_iff_ne.mpr none]
    exact ⟨congrArg _ (length_eq_zero_iff.mp sound.length_iter), sound⟩
  | iter => exact ⟨_, _, _, rfl, ⟨rfl, rfl⟩, represents_new⟩
  | len => exact ⟨_, _, _, rfl, ⟨rfl, rfl⟩, represents_new⟩

omit sound in
theorem Represents.step (represents : index.Represents hasher bag) (keeps : call.Keeps hasher index) :
    ∃ answer next after, index.apply hasher call = some (answer, next) ∧
      call.Meets bag answer after ∧ next.Represents hasher after := by
  rcases represents.cases with ⟨rfl, rfl⟩ | ⟨sound, rfl⟩
  · exact step_new keeps
  · exact sound.step keeps

/-- The layout of a directory over its segments, and where the records lie. -/
structure Laid (hasher : α → BitVec 64) (index : DashIndex α) : Prop where
  slots : index.directory.length = 2 ^ index.globalDepth
  shared : ∀ si seg, index.segments[si]? = some seg → seg.localDepth ≤ index.globalDepth ∧
    index.directory.count si = 2 ^ (index.globalDepth - seg.localDepth) ∧
    ∃ stem < 2 ^ seg.localDepth, ∀ slot < 2 ^ index.globalDepth,
      index.directory[slot]? = some si ↔ slot >>> (index.globalDepth - seg.localDepth) = stem
  routed : ∀ si seg, index.segments[si]? = some seg → ∀ item ∈ seg.iter,
    index.route (hasher item) = some (some si)

theorem Sound.laid : index.Laid hasher where
  slots := sound.shares.length
  shared := by
    intro si seg found
    have deep : (index.segments.map Segment.localDepth)[si]? = some seg.localDepth := by
      rw [getElem?_map, found]
      rfl
    exact ⟨sound.shares.shallow _ (mem_of_getElem? deep), sound.shares.count deep,
      sound.shares.owned si _ deep⟩
  routed := by
    intro si seg found item member
    rw [Segment.iter_eq] at member
    obtain ⟨record, listed, rfl⟩ := mem_map.mp member
    unfold route
    rw [if_neg (by simpa using sound.nonempty), (sound.homed si seg found record listed).2]
    rfl

end

end DashIndex

section Runs

open DashIndex

variable {hasher : α → BitVec 64} {tables : List (DashIndex α)} {bags : List (Bag α)}

private theorem getElem?_forall₂ {β γ : Type} {relates : β → γ → Prop} {left : List β} {right : List γ}
    (all : Forall₂ relates left right) (index : ℕ) : (left[index]? = none ∧ right[index]? = none) ∨
      ∃ first second, left[index]? = some first ∧ right[index]? = some second ∧
        relates first second := by
  rcases Nat.lt_or_ge index left.length with inside | beyond
  · have within : index < right.length := all.length_eq ▸ inside
    exact .inr ⟨_, _, getElem?_eq_getElem inside, getElem?_eq_getElem within, all.get inside within⟩
  · exact .inl ⟨getElem?_eq_none beyond, getElem?_eq_none (all.length_eq ▸ beyond)⟩

private theorem forall₂_set {β γ : Type} {relates : β → γ → Prop} {left : List β} {right : List γ}
    (all : Forall₂ relates left right) {first : β} {second : γ} (new : relates first second)
    (index : ℕ) : Forall₂ relates (left.set index first) (right.set index second) := by
  induction all generalizing index with
  | nil => exact .nil
  | cons head tail ih =>
    cases index with
    | zero => exact .cons new tail
    | succ index => exact .cons head (ih index)

theorem Act.step (represented : Forall₂ (Represents hasher) tables bags) {act : Act α}
    (keeps : act.Keeps hasher tables) : ∃ answer next after, act.apply hasher tables = some (answer, next) ∧
      act.Meets bags answer after ∧ Forall₂ (Represents hasher) next after := by
  cases act with
  | invoke handle call =>
    unfold Act.apply Act.Meets
    rcases getElem?_forall₂ represented handle with ⟨missing, absent⟩ | ⟨index, bag, found, its, one⟩
    · simp only [missing, absent]
      exact ⟨_, _, _, rfl, ⟨rfl, rfl⟩, represented⟩
    obtain ⟨answer, next, after, applied, meets, fine⟩ := one.step (keeps index found)
    simp only [found, its, applied, Option.bind_eq_bind, Option.bind_some]
    exact ⟨_, _, _, rfl, ⟨after, meets, rfl⟩, forall₂_set represented fine handle⟩
  | clone handle =>
    refine ⟨_, _, _, rfl, ⟨rfl, rfl⟩, rel_append represented ?_⟩
    rcases getElem?_forall₂ represented handle with ⟨missing, absent⟩ | ⟨index, bag, found, its, one⟩
    · rw [missing, absent]
      exact .nil
    · rw [found, its]
      exact .cons one .nil

private theorem represents_run (acts : List (Act α)) (keeps : Keeping hasher tables acts)
    (represented : Forall₂ (Represents hasher) tables bags) :
    ∃ answers next after, run hasher tables acts = some (answers, next) ∧
      Traces bags acts answers after ∧ Forall₂ (Represents hasher) next after := by
  induction acts generalizing tables bags with
  | nil => exact ⟨[], tables, bags, rfl, .nil, represented⟩
  | cons act acts ih =>
    obtain ⟨answer, middle, between, applied, meets, fine⟩ :=
      Act.step represented keeps.1
    obtain ⟨answers, next, after, ran, traces, last⟩ := ih (keeps.2 _ _ applied) fine
    refine ⟨answer :: answers, next, after, ?_, .cons meets traces, last⟩
    unfold run
    rw [applied, Option.bind_eq_bind, Option.bind_some]
    dsimp only
    rw [ran]
    rfl

/-- Every run of calls on an index and its clones comes to its end, the split loops included, with
the answers and the contents of multisets of entries. The indexes that were written to or reserved
for are laid out as directories of their depth; the others are still the empty shape. -/
theorem run_refines (hasher : α → BitVec 64) (acts : List (Act α)) (keeps : Keeping hasher [new] acts) :
    ∃ answers tables bags, run hasher [new] acts = some (answers, tables) ∧
      Traces [⟨0, false⟩] acts answers bags ∧
      Forall₂ (fun index bag => (index.iter : Multiset α) = bag.contents ∧ index.len = bag.contents.card ∧
        if bag.opened then index.Laid hasher else index = new) tables bags := by
  obtain ⟨answers, tables, bags, ran, traces, represented⟩ :=
    represents_run acts keeps (.cons represents_new .nil)
  refine ⟨answers, tables, bags, ran, traces, represented.imp fun index bag represents => ?_⟩
  rcases represents.cases with ⟨rfl, rfl⟩ | ⟨sound, rfl⟩
  · exact ⟨rfl, rfl, rfl⟩
  · exact ⟨rfl, sound.length_iter.symm, sound.laid⟩

def insertedActs : List (Act ℕ) :=
  [.invoke 0 (.entry 5 (· == 5) some (some 5)), .invoke 0 (.reserve 100), .clone 0,
    .invoke 1 (.findEntry 5 (· == 5) fun _ => none), .invoke 0 (.find 5 (· == 5))]

theorem run_refines_inserted : ∃ answers tables bags,
    run (BitVec.ofNat 64) [new] insertedActs = some (answers, tables) ∧
    Traces [⟨0, false⟩] insertedActs answers bags ∧
    Forall₂ (fun index bag => (index.iter : Multiset ℕ) = bag.contents ∧
      index.len = bag.contents.card ∧
      if bag.opened then index.Laid (BitVec.ofNat 64) else index = new) tables bags := by
  have small : 1 + (100 : BitVec 64).toNat < 2 ^ 64 := by decide
  refine run_refines _ _ ⟨fun index held => by simp [Call.Keeps], ?_⟩
  rintro answer next ⟨⟩
  refine ⟨?_, fun _ _ _ => ⟨trivial, fun _ _ _ => ⟨?_, fun _ _ _ => ⟨?_, fun _ _ _ => trivial⟩⟩⟩⟩
  · rintro index ⟨⟩
    exact small
  · intro index held
    simp [Call.Keeps]
  · intro index held
    simp [Call.Keeps]

/-- An index that nothing was written to has no slot at all, not the one of a directory of depth
zero, and one with an entry cannot reserve for as many as a machine word counts. -/
theorem unwritten_directory : (∃ answers tables, run (BitVec.ofNat 64) [new]
    [.invoke 0 (.find 5 (· == 5)), .invoke 0 .len] = some (answers, tables) ∧
      ∃ index ∈ tables, index.directory.length ≠ 2 ^ index.globalDepth) ∧
    run (BitVec.ofNat 64) [new] [.invoke 0 (.entry 5 (· == 5) some (some 5)),
      .invoke 0 (.reserve (.allOnes 64))] = none :=
  ⟨⟨_, _, rfl, new, mem_singleton.mpr rfl, by decide⟩, rfl⟩

end Runs

end IronCache.Dash
