import IronCache.Dash.Placement

/-!
# Growth

A doubling or a split keeps the records and where they belong, and the split loop comes to its end.
-/

namespace IronCache.Dash.DashIndex

open Extendible
open List
open Option

variable {α : Type} {hasher : α → BitVec 64} {index : DashIndex α}

private theorem dirIndex_doubleDirectory (bounded : index.globalDepth < 64) (hash : BitVec 64) :
    index.doubleDirectory.dirIndex hash >>> 1 = index.dirIndex hash := by
  rw [dirIndex_eq, dirIndex_eq, ← Nat.shiftRight_add]
  congr 1
  change 64 - (index.globalDepth + 1) + 1 = _
  omega

section

variable (sound : index.Sound hasher)
include sound

theorem Sound.getElem?_doubleDirectory (room : index.globalDepth < maxGlobalDepth) (hash : BitVec 64) :
    index.doubleDirectory.directory[index.doubleDirectory.dirIndex hash]? =
      index.directory[index.dirIndex hash]? := by
  have small : index.globalDepth < 64 := room.trans (by decide)
  have inside : index.doubleDirectory.dirIndex hash < index.directory.length * 2 := by
    have half := dirIndex_lt sound.bounded hash
    rw [← dirIndex_doubleDirectory small, Nat.shiftRight_eq_div_pow, ← sound.shares.length] at half
    omega
  change (double index.directory)[_]? = _
  rw [getElem?_double inside, dirIndex_doubleDirectory small]

theorem Sound.doubleDirectory (room : index.globalDepth < maxGlobalDepth) :
    index.doubleDirectory.Sound hasher where
  bounded := room
  shares := sound.shares.double
  homed si seg found record member := by
    obtain ⟨stamped, home⟩ := sound.homed si seg found record member
    exact ⟨stamped, (sound.getElem?_doubleDirectory room _).trans home⟩
  counted := sound.counted

variable {segIdx : ℕ} {seg : Segment α} {hash : BitVec 64}

omit sound in
/-- What the moves of a split leave: each of the two segments has its share of the records. -/
private theorem foldl_place {newLocal buddyIdx : ℕ} {base : List (Segment α)}
    (behind : base.length = buddyIdx) (inside : segIdx < buddyIdx) (drained : List (BitVec 8 × α))
    (kept moved : Segment α) (shape : index.segments = base.set segIdx kept ++ [moved]) :
    ∃ kept' moved', drained.foldl (place hasher newLocal buddyIdx segIdx) index =
        { index with
          segments := base.set segIdx kept' ++ [moved']
          len := index.len + drained.length } ∧
      kept'.localDepth = kept.localDepth ∧ moved'.localDepth = moved.localDepth ∧
      kept'.records.Perm
        (drained.filter (fun record => !bitFromTop (hasher record.2) newLocal) ++ kept.records) ∧
      moved'.records.Perm
        (drained.filter (fun record => bitFromTop (hasher record.2) newLocal) ++ moved.records) := by
  induction drained generalizing index kept moved with
  | nil =>
    refine ⟨kept, moved, ?_, rfl, rfl, List.Perm.refl _, List.Perm.refl _⟩
    rw [← shape]
    rfl
  | cons record drained ih =>
    rw [foldl_cons]
    have length : (base.set segIdx kept).length = buddyIdx := by
      rw [length_set, behind]
    by_cases odd : bitFromTop (hasher record.2) newLocal = true
    · have next : (index.place hasher newLocal buddyIdx segIdx record).segments =
          base.set segIdx kept ++ [moved.push record.1 record.2] := by
        have here : (base.set segIdx kept ++ [moved])[buddyIdx]? = some moved := by
          rw [getElem?_append_right length.le, length, Nat.sub_self]
          rfl
        unfold place insert
        rw [if_pos odd]
        rw [shape, modify_eq_set here, set_append_right _ _ length.le, length, Nat.sub_self]
        rfl
      obtain ⟨kept', moved', folded, low, high, stays, goes⟩ := ih _ _ next
      refine ⟨kept', moved', ?_, low, high.trans moved.localDepth_push, ?_, ?_⟩
      · rw [folded]
        unfold place insert
        simp only [length_cons, Nat.add_assoc, Nat.add_comm]
      · rw [filter_cons_of_neg (by simp [odd])]
        exact stays
      · rw [filter_cons_of_pos (by simpa using odd)]
        exact goes.trans (((moved.push_perm _ _).append_left _).trans perm_middle)
    · have next : (index.place hasher newLocal buddyIdx segIdx record).segments =
          base.set segIdx (kept.push record.1 record.2) ++ [moved] := by
        have here : (base.set segIdx kept ++ [moved])[segIdx]? = some kept := by
          rw [getElem?_append_left (by omega), getElem?_set_self (by omega)]
        unfold place insert
        rw [if_neg odd]
        rw [shape, modify_eq_set here, set_append_left _ _ (by omega), set_set]
      obtain ⟨kept', moved', folded, low, high, stays, goes⟩ := ih _ _ next
      refine ⟨kept', moved', ?_, low.trans kept.localDepth_push, high, ?_, ?_⟩
      · rw [folded]
        unfold place insert
        simp only [length_cons, Nat.add_assoc, Nat.add_comm]
      · rw [filter_cons_of_pos (by simpa using odd)]
        exact stays.trans (((kept.push_perm _ _).append_left _).trans perm_middle)
      · rw [filter_cons_of_neg (by simpa using odd)]
        exact goes

/-- A split behind its doubling, in closed form. -/
theorem Sound.divide_eq (found : index.segments[segIdx]? = some seg) :
    ∃ kept moved, index.divide hasher segIdx seg =
        { index with
          directory := repoint segIdx index.segments.length
            (index.globalDepth - (seg.localDepth + 1)) index.directory
          segments := index.segments.set segIdx kept ++ [moved] } ∧
      kept.localDepth = seg.localDepth + 1 ∧ moved.localDepth = seg.localDepth + 1 ∧
      kept.records.Perm
        (seg.records.filter fun record => !bitFromTop (hasher record.2) (seg.localDepth + 1)) ∧
      moved.records.Perm
        (seg.records.filter fun record => bitFromTop (hasher record.2) (seg.localDepth + 1)) := by
  have inside := (List.getElem?_eq_some_iff.mp found).1
  have enough : seg.records.length ≤ index.len := by
    obtain ⟨rest, whole, -⟩ := stored_exchange found seg 0
    rw [sound.counted, whole.length_eq, length_append]
    exact Nat.le_add_right _ _
  obtain ⟨kept, moved, folded, low, high, stays, goes⟩ :=
    @foldl_place α hasher { index with
        segments := (index.segments ++ [Segment.new (seg.localDepth + 1)]).set segIdx
          { seg.drainAll.2 with localDepth := seg.localDepth + 1 }
        len := index.len - seg.records.length }
      segIdx (seg.localDepth + 1) index.segments.length index.segments rfl inside seg.records _
      (Segment.new (seg.localDepth + 1)) (set_append_left _ _ inside)
  refine ⟨kept, moved, ?_, low, high, ?_, ?_⟩
  · simp only [DashIndex.divide, Segment.drainAll] at folded ⊢
    rw [folded, Nat.sub_add_cancel enough]
  · exact stays.trans (List.Perm.of_eq (append_nil _))
  · exact goes.trans (List.Perm.of_eq (append_nil _))

omit sound in
/-- Where a slot of the segment that splits points afterwards. -/
theorem repointed (bounded : index.globalDepth ≤ maxGlobalDepth)
    (named : index.directory[index.dirIndex hash]? = some segIdx) (room : own < index.globalDepth) :
    (repoint segIdx buddyIdx (index.globalDepth - (own + 1)) index.directory)[index.dirIndex hash]? =
      some (if bitFromTop hash (own + 1) then buddyIdx else segIdx) := by
  have bit : index.dirIndex hash >>> (index.globalDepth - (own + 1)) &&& 1 = 1 ↔
      bitFromTop hash (own + 1) = true := by
    have place : 64 - index.globalDepth + (index.globalDepth - (own + 1)) = 64 - (own + 1) := by
      unfold maxGlobalDepth at bounded
      omega
    rw [bitFromTop_iff, Nat.and_one_is_mod, dirIndex_eq, ← Nat.shiftRight_add, place]
  rw [getElem?_repoint named]
  simp only [bit, true_and]

theorem Sound.divide (found : index.segments[segIdx]? = some seg)
    (room : seg.localDepth < index.globalDepth) : (index.divide hasher segIdx seg).Sound hasher ∧
      (index.divide hasher segIdx seg).iter.Perm index.iter := by
  obtain ⟨kept, moved, shape, low, high, stays, goes⟩ := sound.divide_eq found
  have inside := (List.getElem?_eq_some_iff.mp found).1
  have spread : (stored { index with
      directory := repoint segIdx index.segments.length
        (index.globalDepth - (seg.localDepth + 1)) index.directory
      segments := index.segments.set segIdx kept ++ [moved] }).Perm index.stored := by
    obtain ⟨rest, whole, next⟩ := stored_exchange found kept index.len
    have halves : (kept.records ++ moved.records).Perm seg.records :=
      (stays.append goes).trans (perm_append_comm.trans (filter_append_perm _ _))
    change ((index.segments.set segIdx kept ++ [moved]).flatMap Segment.records).Perm _
    rw [flatMap_append, flatMap_singleton]
    calc (index.segments.set segIdx kept).flatMap Segment.records ++ moved.records
      _ |>.Perm (kept.records ++ rest ++ moved.records) := next.append_right _
      _ |>.Perm (kept.records ++ moved.records ++ rest) := by
          rw [append_assoc, append_assoc]
          exact perm_append_comm.append_left _
      _ |>.Perm (seg.records ++ rest) := halves.append_right _
      _ |>.Perm index.stored := whole.symm
  rw [shape]
  refine ⟨⟨sound.bounded, ?_, ?_, ?_⟩, ?_⟩
  · have deep : (index.segments.map Segment.localDepth)[segIdx]? = some seg.localDepth := by
      rw [getElem?_map, found]
      rfl
    have shares := sound.shares.split deep room
    rw [length_map] at shares
    rw [map_append, map_set, low, map_singleton, high]
    exact shares
  · -- the records of the segment follow its slots, the others keep theirs
    intro si its there record member
    have old : ∀ sj, sj ≠ segIdx → index.Homed hasher sj record →
        (repoint segIdx index.segments.length (index.globalDepth - (seg.localDepth + 1))
          index.directory)[index.dirIndex (hasher record.2)]? = some sj := by
      intro sj other home
      rw [getElem?_repoint home.2, if_neg (fun both => other both.1)]
    have split : record ∈ seg.records → record.1 = fingerprint (hasher record.2) ∧
        (repoint segIdx index.segments.length (index.globalDepth - (seg.localDepth + 1))
          index.directory)[index.dirIndex (hasher record.2)]? =
          some (if bitFromTop (hasher record.2) (seg.localDepth + 1) then index.segments.length
            else segIdx) := by
      intro listed
      obtain ⟨stamped, home⟩ := sound.homed segIdx seg found record listed
      exact ⟨stamped, repointed sound.bounded home room⟩
    rcases Nat.lt_trichotomy si index.segments.length with before | at_end | beyond
    · rw [getElem?_append_left (by rwa [length_set])] at there
      by_cases here : segIdx = si
      · subst here
        rw [getElem?_set_self inside, some_inj] at there
        subst there
        obtain ⟨listed, even⟩ := mem_filter.mp (stays.subset member)
        have routed := split listed
        rw [if_neg (by simpa using even)] at routed
        exact routed
      · rw [getElem?_set_ne here] at there
        have home := sound.homed si its there record member
        exact ⟨home.1, old si (Ne.symm here) home⟩
    · subst at_end
      rw [getElem?_append_right (by rw [length_set]), length_set, Nat.sub_self] at there
      cases there
      obtain ⟨listed, odd⟩ := mem_filter.mp (goes.subset member)
      have routed := split listed
      rw [if_pos odd] at routed
      exact routed
    · rw [getElem?_eq_none (by simp; omega)] at there
      cases there
  · exact sound.counted.trans spread.length_eq.symm
  · rw [iter_eq, iter_eq]
    exact spread.map Prod.snd

/-- The segment of a hash is one bit deeper after it was split. -/
theorem Sound.deeper (found : index.segments[segIdx]? = some seg) (room : seg.localDepth < index.globalDepth)
    (named : index.directory[index.dirIndex hash]? = some segIdx) :
    ∃ si its, (index.divide hasher segIdx seg).directory[
        (index.divide hasher segIdx seg).dirIndex hash]? = some si ∧
      (index.divide hasher segIdx seg).segments[si]? = some its ∧
      its.localDepth = seg.localDepth + 1 := by
  obtain ⟨kept, moved, shape, low, high, -, -⟩ := sound.divide_eq found
  have inside := (List.getElem?_eq_some_iff.mp found).1
  rw [shape]
  refine ⟨_, if bitFromTop hash (seg.localDepth + 1) then moved else kept,
    repointed sound.bounded named room, ?_, ?_⟩
  · split
    · rw [getElem?_append_right (by rw [length_set]), length_set, Nat.sub_self]
      rfl
    · rw [getElem?_append_left (by rwa [length_set]), getElem?_set_self inside]
  · split
    · exact high
    · exact low

theorem Sound.split (named : index.directory[index.dirIndex hash]? = some segIdx)
    (found : index.segments[segIdx]? = some seg)
    (room : ¬(seg.localDepth = index.globalDepth ∧ index.globalDepth ≥ maxGlobalDepth)) :
    ∃ next, index.split hasher (index.dirIndex hash) = some next ∧ next.Sound hasher ∧
      next.iter.Perm index.iter ∧ ∃ si its, next.directory[next.dirIndex hash]? = some si ∧
        next.segments[si]? = some its ∧ its.localDepth = seg.localDepth + 1 := by
  have shallow : seg.localDepth ≤ index.globalDepth := by
    obtain ⟨si, its, named', found', shallow⟩ := sound.routed hash
    rw [named, some_inj] at named'
    subst named'
    rw [found, some_inj] at found'
    exact found' ▸ shallow
  unfold DashIndex.split
  simp only [named, found, bind_eq_bind, bind_some, some_inj]
  by_cases level : seg.localDepth = index.globalDepth
  · have low : index.globalDepth < maxGlobalDepth := not_le.mp fun full => room ⟨level, full⟩
    have doubled := sound.doubleDirectory low
    have deep : seg.localDepth < index.doubleDirectory.globalDepth := Nat.lt_succ_of_le shallow
    have still := (sound.getElem?_doubleDirectory low hash).trans named
    rw [if_pos level]
    obtain ⟨after, kept⟩ := doubled.divide found deep
    exact ⟨_, rfl, after, kept, doubled.deeper found deep still⟩
  · have deep : seg.localDepth < index.globalDepth := lt_of_le_of_ne shallow level
    rw [if_neg level]
    obtain ⟨after, kept⟩ := sound.divide found deep
    exact ⟨_, rfl, after, kept, sound.deeper found deep named⟩

omit sound in
/-- The loop ends: the segment of the hash cannot get deeper than the deepest directory. The number
of splits made so far is not needed for it. -/
theorem Sound.makeRoom (fuel splits : ℕ) (sound : index.Sound hasher)
    (named : index.directory[index.dirIndex hash]? = some segIdx)
    (found : index.segments[segIdx]? = some seg) (enough : maxGlobalDepth < fuel + seg.localDepth) :
    ∃ next, makeRoom hasher hash fuel splits index = some next ∧ next.Sound hasher ∧
      next.iter.Perm index.iter := by
  induction fuel generalizing splits index segIdx seg with
  | zero =>
    obtain ⟨si, its, named', found', shallow⟩ := sound.routed hash
    rw [named, some_inj] at named'
    subst named'
    rw [found, some_inj] at found'
    subst found'
    have bounded := sound.bounded
    omega
  | succ fuel ih =>
    unfold DashIndex.makeRoom
    simp only [named, found, bind_eq_bind, bind_some]
    split
    · exact ⟨index, rfl, sound, List.Perm.refl _⟩
    split
    · exact ⟨index, rfl, sound, List.Perm.refl _⟩
    split
    · exact ⟨index, rfl, sound, List.Perm.refl _⟩
    rename_i room
    obtain ⟨middle, splitted, after, kept, si, its, named', found', deeper⟩ :=
      sound.split named found room
    rw [splitted, bind_some]
    obtain ⟨next, made, fine, same⟩ := ih (splits + 1) after named' found' (by omega)
    exact ⟨next, made, fine, same.trans kept⟩

omit sound in
theorem sound_ensureInit_new : (ensureInit (new : DashIndex α)).Sound hasher where
  bounded := Nat.zero_le _
  shares := shares_single
  homed := by
    intro si seg found record member
    cases si with
    | zero =>
      cases found
      cases member
    | succ si => cases found
  counted := rfl

theorem Sound.ensureInit : index.ensureInit = index := by
  unfold DashIndex.ensureInit
  rw [if_neg (by simpa using sound.nonempty)]

/-- A directory of empty segments, one for each slot. -/
def presized (depth : ℕ) : DashIndex α :=
  ⟨depth, List.range (2 ^ depth), List.replicate (2 ^ depth) (Segment.new depth), 0⟩

omit sound in
theorem sound_presized (bounded : depth ≤ maxGlobalDepth) : (presized depth : DashIndex α).Sound hasher where
  bounded := bounded
  shares := by
    change Shares depth (List.range (2 ^ depth)) ((List.replicate _ _).map Segment.localDepth)
    rw [map_replicate]
    exact shares_distinct
  homed := by
    intro si seg found record member
    rw [eq_of_mem_replicate (mem_of_getElem? found)] at member
    cases member
  counted := by
    refine (length_eq_zero_iff.mpr (flatMap_eq_nil_iff.mpr fun seg member => ?_)).symm
    rw [eq_of_mem_replicate member]
    rfl

theorem Sound.doublings (turns : ℕ) (room : index.globalDepth + turns ≤ maxGlobalDepth) :
    (DashIndex.doubleDirectory^[turns] index).Sound hasher ∧
      (DashIndex.doubleDirectory^[turns] index).iter = index.iter := by
  induction turns generalizing index with
  | zero => exact ⟨sound, rfl⟩
  | succ turns ih =>
    have low : index.globalDepth < maxGlobalDepth := by omega
    have deep : index.doubleDirectory.globalDepth + turns ≤ maxGlobalDepth := by
      change index.globalDepth + 1 + turns ≤ maxGlobalDepth
      omega
    exact ih (sound.doubleDirectory low) deep

theorem Sound.reserve {additional : BitVec 64} (fits : index.len + additional.toNat < 2 ^ 64) :
    ∃ next, index.reserve additional = some next ∧ next.Sound hasher ∧ next.iter = index.iter := by
  unfold DashIndex.reserve
  dsimp only
  rw [if_neg (Nat.not_le.mpr fits)]
  split
  · exact ⟨index, rfl, sound, rfl⟩
  rw [if_neg (by simpa using sound.nonempty)]
  refine ⟨_, rfl, sound.doublings _ ?_⟩
  have low := sound.bounded
  omega

end

theorem reserve_new (additional : BitVec 64) : ∃ depth ≤ maxGlobalDepth,
    (new : DashIndex α).reserve additional =
      some (if additional = 0 then new else presized depth) := by
  have needed : (new : DashIndex α).len + additional.toNat = additional.toNat := Nat.zero_add _
  have nothing : additional.toNat = 0 ↔ additional = 0 :=
    ⟨fun zero => BitVec.eq_of_toNat_eq zero, fun zero => congrArg BitVec.toNat zero⟩
  refine ⟨min (Nat.clog 2 ((additional.toNat + 55) / (segmentCap * 7 / 8))) maxGlobalDepth,
    min_le_right _ _, ?_⟩
  unfold reserve
  simp only [needed, nothing]
  rw [if_neg (Nat.not_le.mpr additional.isLt), apply_ite some]
  rfl

end IronCache.Dash.DashIndex
