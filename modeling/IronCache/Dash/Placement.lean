import IronCache.Dash.Index

/-!
# Placement

Every record stays in the segment its hash is routed to, through writes, doublings and splits.
-/

namespace IronCache.Dash

open Extendible
open List
open Segment

theorem bitFromTop_iff {hash : BitVec 64} {n : ℕ} :
    bitFromTop hash n = true ↔ hash.toNat >>> (64 - n) % 2 = 1 := by
  unfold bitFromTop
  rw [beq_iff_eq, ← BitVec.toNat_inj, BitVec.toNat_and, BitVec.toNat_ushiftRight]
  exact (Nat.and_one_is_mod _) ▸ Iff.rfl

/-- What stands before and behind an element of a list, seen through a map into lists. -/
theorem flatMap_set {β γ : Type} (spread : β → List γ) {list : List β} {index : ℕ} {element : β}
    (found : list[index]? = some element) (other : β) :
    ∃ rest, (list.flatMap spread).Perm (spread element ++ rest) ∧
      ((list.set index other).flatMap spread).Perm (spread other ++ rest) := by
  obtain ⟨before, after⟩ := set_perm_of_getElem? found other
  exact ⟨(list.eraseIdx index).flatMap spread, before.flatMap_right spread, after.flatMap_right spread⟩

namespace DashIndex

variable {α : Type} {hasher : α → BitVec 64} {index : DashIndex α}

/-- The records of all segments with their fingerprints. -/
def stored (index : DashIndex α) : List (BitVec 8 × α) := index.segments.flatMap Segment.records

theorem iter_eq (index : DashIndex α) : index.iter = index.stored.map Prod.snd := by
  unfold iter stored
  rw [map_flatMap]
  exact congrArg (List.flatMap · index.segments) (funext Segment.iter_eq)

theorem dirIndex_eq (index : DashIndex α) (hash : BitVec 64) :
    index.dirIndex hash = hash.toNat >>> (64 - index.globalDepth) := by
  unfold dirIndex
  split
  · rename_i shallow
    rw [shallow, Nat.shiftRight_eq_div_pow]
    exact (Nat.div_eq_of_lt hash.isLt).symm
  · exact BitVec.toNat_ushiftRight _ _

theorem dirIndex_lt (bounded : index.globalDepth ≤ maxGlobalDepth) (hash : BitVec 64) :
    index.dirIndex hash < 2 ^ index.globalDepth := by
  rw [dirIndex_eq, Nat.shiftRight_eq_div_pow, Nat.div_lt_iff_lt_mul (Nat.two_pow_pos _), ← pow_add]
  refine lt_of_lt_of_le hash.isLt (Nat.pow_le_pow_right (by decide) ?_)
  omega

/-- A record with the fingerprint of its hash, routed to a segment. -/
def Homed (hasher : α → BitVec 64) (index : DashIndex α) (si : ℕ) (record : BitVec 8 × α) : Prop :=
  record.1 = fingerprint (hasher record.2) ∧ index.directory[index.dirIndex (hasher record.2)]? = some si

/-- An index that has been written to or reserved for. -/
structure Sound (hasher : α → BitVec 64) (index : DashIndex α) : Prop where
  bounded : index.globalDepth ≤ maxGlobalDepth
  shares : Shares index.globalDepth index.directory (index.segments.map localDepth)
  homed : ∀ si seg, index.segments[si]? = some seg → ∀ record ∈ seg.records, index.Homed hasher si record
  counted : index.len = index.stored.length

section

variable (sound : index.Sound hasher)
include sound

theorem Sound.nonempty : index.directory ≠ [] := by
  intro empty
  have length := sound.shares.length
  rw [empty] at length
  exact (Nat.two_pow_pos _).ne length

theorem Sound.length_iter : index.iter.length = index.len := by
  rw [iter_eq, length_map, sound.counted]

theorem Sound.routed (hash : BitVec 64) : ∃ si seg, index.directory[index.dirIndex hash]? = some si ∧
      index.segments[si]? = some seg ∧ seg.localDepth ≤ index.globalDepth := by
  obtain ⟨si, own, named, deep, shallow⟩ := sound.shares.lookup (dirIndex_lt sound.bounded hash)
  rw [getElem?_map, Option.map_eq_some_iff] at deep
  obtain ⟨seg, found, rfl⟩ := deep
  exact ⟨si, seg, named, found, shallow⟩

variable {si : ℕ} {seg : Segment α} {item : α} {fp : BitVec 8}

theorem Sound.mem_routed {hash : BitVec 64} (named : index.directory[index.dirIndex hash]? = some si)
    (found : index.segments[si]? = some seg) (same : hasher item = hash) :
    (fingerprint hash, item) ∈ seg.records ↔ item ∈ index.iter := by
  rw [iter_eq, mem_map]
  constructor
  · intro member
    exact ⟨_, mem_flatMap.mpr ⟨seg, mem_of_getElem? found, member⟩, rfl⟩
  · rintro ⟨record, member, rfl⟩
    obtain ⟨other, listed, inside⟩ := mem_flatMap.mp member
    obtain ⟨sj, there⟩ := mem_iff_getElem?.mp listed
    obtain ⟨stamped, home⟩ := sound.homed sj other there record inside
    rw [same, named, Option.some_inj] at home
    subst home
    rw [found, Option.some_inj] at there
    subst there
    rw [← same, ← stamped]
    exact inside

omit sound in
theorem modify_eq_set {β : Type} {list : List β} {index : ℕ} {element : β}
    (found : list[index]? = some element) (change : β → β) :
    list.modify index change = list.set index (change element) := by
  rw [modify_eq_set_getElem?, found]
  rfl

theorem Sound.exchange {other : Segment α} (found : index.segments[si]? = some seg)
    (deep : other.localDepth = seg.localDepth)
    (home : ∀ record ∈ other.records, index.Homed hasher si record) {len : ℕ}
    (counted : len + seg.records.length = index.len + other.records.length) :
    Sound hasher { index with segments := index.segments.set si other, len := len } where
  bounded := sound.bounded
  shares := by
    have depths : (index.segments.set si other).map localDepth = index.segments.map localDepth := by
      rw [map_set, deep]
      have own : (index.segments.map localDepth)[si]? = some seg.localDepth := by
        rw [getElem?_map, found]
        rfl
      obtain ⟨inside, its⟩ := List.getElem?_eq_some_iff.mp own
      rw [← its, List.set_getElem_self]
    exact depths.symm ▸ sound.shares
  homed := by
    intro sj its there record member
    by_cases here : si = sj
    · subst here
      rw [List.getElem?_set_self (List.getElem?_eq_some_iff.mp found).1, Option.some_inj] at there
      subst there
      exact home record member
    · rw [getElem?_set_ne here] at there
      exact sound.homed sj its there record member
  counted := by
    obtain ⟨rest, before, after⟩ := flatMap_set Segment.records found other
    have was := sound.counted
    unfold stored at was ⊢
    rw [before.length_eq, length_append] at was
    rw [after.length_eq, length_append]
    dsimp only
    omega

omit sound in
theorem stored_exchange (found : index.segments[si]? = some seg) (other : Segment α) (len : ℕ) :
    ∃ rest, index.stored.Perm (seg.records ++ rest) ∧
      (stored { index with segments := index.segments.set si other, len := len }).Perm
        (other.records ++ rest) :=
  flatMap_set Segment.records found other

theorem Sound.write {loc : Loc} (found : index.segments[si]? = some seg)
    (there : seg.At loc fp item) {other : α} (same : hasher other = hasher item) :
    (index.write si loc other).Sound hasher ∧ ∃ rest, index.iter.Perm (item :: rest) ∧
        (index.write si loc other).iter.Perm (other :: rest) := by
  obtain ⟨left, before, after⟩ := set_perm there other
  have written : index.write si loc other =
      { index with segments := index.segments.set si (seg.set loc other), len := index.len } := by
    unfold DashIndex.write
    rw [modify_eq_set found]
  have kept : (seg.set loc other).localDepth = seg.localDepth := by
    cases loc <;> rfl
  have home : ∀ record ∈ (seg.set loc other).records, index.Homed hasher si record := by
    intro record member
    rcases mem_cons.mp (after.subset member) with rfl | old
    · have was := sound.homed si seg found (fp, item) (before.symm.subset (mem_cons_self ..))
      unfold Homed at was ⊢
      rw [same]
      exact was
    · exact sound.homed si seg found record (before.symm.subset (mem_cons_of_mem _ old))
  refine ⟨?_, ?_⟩
  · rw [written]
    exact sound.exchange found kept home (by rw [before.length_eq, after.length_eq]; rfl)
  · obtain ⟨rest, whole, next⟩ := stored_exchange found (seg.set loc other) index.len
    rw [written, iter_eq, iter_eq]
    refine ⟨(left ++ rest).map Prod.snd, ?_, ?_⟩
    · exact (whole.trans (before.append_right rest)).map Prod.snd
    · exact (next.trans (after.append_right rest)).map Prod.snd

theorem Sound.remove {loc : Loc} (found : index.segments[si]? = some seg) (there : seg.At loc fp item) :
    (index.remove si loc).Sound hasher ∧ index.iter.Perm (item :: (index.remove si loc).iter) := by
  have before := removeAt_perm there
  have removed : index.remove si loc =
      { index with segments := index.segments.set si (seg.removeAt loc), len := index.len - 1 } := by
    unfold DashIndex.remove
    rw [modify_eq_set found]
  have kept : (seg.removeAt loc).localDepth = seg.localDepth := by
    cases loc <;> rfl
  have home : ∀ record ∈ (seg.removeAt loc).records, index.Homed hasher si record :=
    fun record member => sound.homed si seg found record (before.subset (mem_cons_of_mem _ member))
  obtain ⟨rest, whole, next⟩ := stored_exchange found (seg.removeAt loc) (index.len - 1)
  have some : 0 < index.len := by
    rw [sound.counted, whole.length_eq, length_append, ← before.length_eq, length_cons]
    omega
  rw [removed]
  refine ⟨sound.exchange found kept home ?_, ?_⟩
  · rw [← before.length_eq, length_cons]
    omega
  · rw [iter_eq, iter_eq]
    have step := (whole.trans (before.symm.append_right rest)).trans ((next.cons (fp, item)).symm)
    exact step.map Prod.snd

theorem Sound.insert {value : α} (named : index.directory[index.dirIndex (hasher value)]? = some si) :
    (index.insert si (fingerprint (hasher value)) value).Sound hasher ∧
      (index.insert si (fingerprint (hasher value)) value).iter.Perm (value :: index.iter) := by
  obtain ⟨sj, seg, named', found, -⟩ := sound.routed (hasher value)
  rw [named, Option.some_inj] at named'
  subst named'
  have after := seg.push_perm (fingerprint (hasher value)) value
  have pushed : index.insert si (fingerprint (hasher value)) value =
      { index with
        segments := index.segments.set si (seg.push (fingerprint (hasher value)) value)
        len := index.len + 1 } := by
    unfold DashIndex.insert
    rw [modify_eq_set found]
  have home : ∀ record ∈ (seg.push (fingerprint (hasher value)) value).records,
      index.Homed hasher si record := by
    intro record member
    rcases mem_cons.mp (after.subset member) with rfl | old
    · exact ⟨rfl, named⟩
    · exact sound.homed si seg found record old
  obtain ⟨rest, whole, next⟩ := stored_exchange found
    (seg.push (fingerprint (hasher value)) value) (index.len + 1)
  rw [pushed]
  refine ⟨sound.exchange found seg.localDepth_push home ?_, ?_⟩
  · rw [after.length_eq, length_cons]
    omega
  · rw [iter_eq, iter_eq]
    have step := (next.trans (after.append_right rest)).trans
      (whole.symm.cons (fingerprint (hasher value), value))
    exact step.map Prod.snd

end

end DashIndex

end IronCache.Dash
