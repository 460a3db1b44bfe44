import IronCache.Store.Traced

/-!
# Walking the keyspace

The cursor of a scan and the chunks of a snapshot that is pulled with it
(`ironcache-store/src/lib.rs`).
-/

namespace IronCache.Store

open List

/-- The keys to examine and the cursor to go on with, which is zero at the end. -/
structure ScanPlan where
  examined : List Bytes
  next : UInt64

/-- The hashes that a cursor without its low bits cannot tell apart. -/
def scanBand (bandBits : ℕ) (hash : UInt64) : UInt64 := hash >>> bandBits.toUInt64

/-- Takes keys while the budget lasts and then to the end of the band of the last one. -/
def examine (bandBits : ℕ) : ℕ → Option UInt64 → List Bytes → List Bytes × List Bytes
  | _, _, [] => ([], [])
  | budget, last, key :: keys =>
    if budget = 0 ∧ last.any (scanBand bandBits · != scanBand bandBits (scanHash key)) then
      ([], key :: keys)
    else
      let (examined, left) := examine bandBits (budget - 1) (some (scanHash key)) keys
      (key :: examined, left)

def scanPlan (order : List Bytes) (cursor : UInt64) (count bandBits : ℕ) : ScanPlan :=
  let resumed := if cursor = 0 then order else order.dropWhile (scanHash · < cursor)
  let (examined, left) := examine bandBits (max count 1) none resumed
  ⟨examined,
    match left with
    | [] => 0
    | key :: _ => scanBand bandBits (scanHash key) <<< bandBits.toUInt64⟩

instance : Std.Total ScanLE where
  total left right := by
    unfold ScanLE
    rcases lt_trichotomy (scanHash left) (scanHash right) with less | same | more
    · exact .inl (.inl less)
    · rcases le_total left right with before | after
      · exact .inl (.inr ⟨same, before⟩)
      · exact .inr (.inr ⟨same.symm, after⟩)
    · exact .inr (.inl more)

instance : IsTrans Bytes ScanLE where
  trans first second third := by
    rintro (less | ⟨same, before⟩) (more | ⟨equal, after⟩)
    · exact .inl (less.trans more)
    · exact .inl (less.trans_eq equal)
    · exact .inl (same.trans_lt more)
    · exact .inr ⟨same.trans equal, before.trans after⟩

def ByHash (keys : List Bytes) : Prop :=
  keys.Pairwise fun left right => scanHash left ≤ scanHash right

theorem byHash_scanSort (keys : List Bytes) : ByHash (scanSort (fun key => key) keys) := by
  refine (pairwise_insertionSort ScanLE keys).imp ?_
  rintro left right (less | ⟨same, -⟩)
  · exact less.le
  · exact same.le

private theorem scanBand_mono : Monotone (scanBand bandBits) := by
  intro left right below
  unfold scanBand
  rw [UInt64.le_iff_toNat_le, UInt64.toNat_shiftRight, UInt64.toNat_shiftRight,
    Nat.shiftRight_eq_div_pow, Nat.shiftRight_eq_div_pow]
  exact Nat.div_le_div_right (UInt64.le_iff_toNat_le.mp below)

variable {bandBits : ℕ} {order : List Bytes}

theorem toNat_bandFloor (hash : UInt64) : (scanBand bandBits hash <<< bandBits.toUInt64).toNat =
      (scanBand bandBits hash).toNat * 2 ^ (bandBits.toUInt64.toNat % 64) := by
  have fits : (scanBand bandBits hash).toNat * 2 ^ (bandBits.toUInt64.toNat % 64) ≤ hash.toNat := by
    unfold scanBand
    rw [UInt64.toNat_shiftRight, Nat.shiftRight_eq_div_pow]
    exact Nat.div_mul_le_self _ _
  rw [UInt64.toNat_shiftLeft, Nat.shiftLeft_eq, Nat.mod_eq_of_lt (fits.trans_lt (UInt64.toNat_lt hash))]

private theorem bandFloor_le (hash : UInt64) : scanBand bandBits hash <<< bandBits.toUInt64 ≤ hash := by
  rw [UInt64.le_iff_toNat_le, toNat_bandFloor]
  unfold scanBand
  rw [UInt64.toNat_shiftRight, Nat.shiftRight_eq_div_pow]
  exact Nat.div_mul_le_self _ _

private theorem lt_bandFloor {hash other : UInt64} (below : scanBand bandBits hash < scanBand bandBits other) :
    hash < scanBand bandBits other <<< bandBits.toUInt64 := by
  rw [UInt64.lt_iff_toNat_lt, toNat_bandFloor]
  apply (Nat.div_lt_iff_lt_mul (Nat.two_pow_pos _)).mp
  rw [← Nat.shiftRight_eq_div_pow, ← UInt64.toNat_shiftRight]
  exact UInt64.lt_iff_toNat_lt.mp below

section Examine

variable {bandBits : ℕ}

theorem examine_append (budget : ℕ) (last : Option UInt64) (keys : List Bytes) :
    (examine bandBits budget last keys).1 ++ (examine bandBits budget last keys).2 = keys := by
  induction keys generalizing budget last with
  | nil => rfl
  | cons key keys ih =>
    unfold examine
    split
    · rfl
    · exact congrArg (key :: ·) (ih (budget - 1) (some (scanHash key)))

/-- What is examined lies in bands below the first key that is left. -/
private theorem band_lt_left {budget : ℕ} {last : Option UInt64} {keys : List Bytes} (sorted : ByHash keys)
    (after : ∀ hash ∈ last, ∀ key ∈ keys, hash ≤ scanHash key) {next : Bytes}
    (left : (examine bandBits budget last keys).2.head? = some next) :
    (∀ hash ∈ last, scanBand bandBits hash < scanBand bandBits (scanHash next)) ∧
      ∀ key ∈ (examine bandBits budget last keys).1,
        scanBand bandBits (scanHash key) < scanBand bandBits (scanHash next) := by
  induction keys generalizing budget last with
  | nil => cases left
  | cons key keys ih =>
    obtain ⟨least, rest⟩ := pairwise_cons.mp sorted
    unfold examine at left ⊢
    split at left
    · rename_i full
      rw [if_pos full]
      obtain rfl : key = next := Option.some.inj left
      refine ⟨fun hash given => ?_, fun _ member => absurd member not_mem_nil⟩
      refine lt_of_le_of_ne (scanBand_mono (after hash given key mem_cons_self)) ?_
      have other := full.2
      rw [Option.mem_def.mp given] at other
      exact bne_iff_ne.mp other
    rename_i room
    rw [if_neg room]
    obtain ⟨first, others⟩ := ih rest (fun hash given other member =>
      (Option.some.inj given).symm.trans_le (least other member)) left
    have below := first _ rfl
    refine ⟨fun hash given => ?_, fun other member => ?_⟩
    · exact (scanBand_mono (after hash given key mem_cons_self)).trans_lt below
    · rcases mem_cons.mp member with rfl | member
      · exact below
      · exact others other member

end Examine

/-- Where a scan resumes. -/
private theorem mem_resumed (sorted : ByHash order) {cursor : UInt64} {key : Bytes} :
    key ∈ (if cursor = 0 then order else order.dropWhile (scanHash · < cursor)) ↔
      key ∈ order ∧ cursor ≤ scanHash key := by
  split
  · rename_i start
    subst start
    exact (and_iff_left UInt64.zero_le).symm
  induction order with
  | nil => simp
  | cons first order ih =>
    obtain ⟨least, rest⟩ := pairwise_cons.mp sorted
    rw [dropWhile_cons]
    split
    · rename_i before
      rw [ih rest, mem_cons]
      have skipped : key = first → ¬cursor ≤ scanHash key := by
        rintro rfl reached
        exact absurd (of_decide_eq_true before) (not_lt.mpr reached)
      tauto
    rename_i reached
    have start : cursor ≤ scanHash first :=
      not_lt.mp fun before => reached (decide_eq_true before)
    refine (and_iff_left_of_imp fun member => ?_).symm
    rcases mem_cons.mp member with rfl | member
    · exact start
    · exact start.trans (least key member)

private theorem byHash_resumed (sorted : ByHash order) (cursor : UInt64) :
    ByHash (if cursor = 0 then order else order.dropWhile (scanHash · < cursor)) := by
  split
  · exact sorted
  · exact List.Pairwise.sublist (dropWhile_sublist _) sorted

/-- A call examines the keys from its cursor up to the next one, and no others. -/
theorem scanPlan_spec (sorted : ByHash order) (cursor : UInt64) (count bandBits : ℕ) :
    (∀ key, key ∈ (scanPlan order cursor count bandBits).examined ↔
      key ∈ order ∧ cursor ≤ scanHash key ∧ ((scanPlan order cursor count bandBits).next ≠ 0 →
        scanHash key < (scanPlan order cursor count bandBits).next)) ∧
      ((scanPlan order cursor count bandBits).next ≠ 0 →
        cursor < (scanPlan order cursor count bandBits).next) := by
  have ordered := byHash_resumed sorted cursor
  have within := fun key => @mem_resumed order sorted cursor key
  unfold scanPlan
  dsimp only
  generalize (if cursor = 0 then order else order.dropWhile (scanHash · < cursor)) = resumed at *
  have whole : (examine bandBits (max count 1) none resumed).1 ++
    (examine bandBits (max count 1) none resumed).2 = resumed := examine_append _ _ _
  have bands := fun next => @band_lt_left bandBits (max count 1) none resumed ordered
    (fun _ given => nomatch given) next
  have started : ∀ key ∈ resumed.head?, key ∈ (examine bandBits (max count 1) none resumed).1 := by
    intro key first
    cases resumed with
    | nil => cases first
    | cons _ keys =>
      cases first
      -- the first key is examined whatever the budget
      unfold examine
      rw [if_neg (by simp)]
      exact mem_cons_self
  generalize examine bandBits (max count 1) none resumed = split at *
  obtain ⟨examined, left⟩ := split
  cases left with
  | nil =>
    rw [append_nil] at whole
    subst whole
    exact ⟨fun key => by simp [within], fun more => absurd rfl more⟩
  | cons next left =>
    have below : ∀ key ∈ examined, scanHash key < scanBand bandBits (scanHash next) <<< bandBits.toUInt64 :=
      fun key member => lt_bandFloor ((bands next rfl).2 key member)
    have above : ∀ key ∈ next :: left,
        scanBand bandBits (scanHash next) <<< bandBits.toUInt64 ≤ scanHash key := by
      rw [← whole] at ordered
      have tail := (pairwise_append.mp ordered).2.1
      intro key member
      refine (bandFloor_le _).trans ?_
      rcases mem_cons.mp member with rfl | member
      · exact le_rfl
      · exact (pairwise_cons.mp tail).1 key member
    -- The first key that was resumed at is examined, so the next cursor lies above it.
    have further : cursor < scanBand bandBits (scanHash next) <<< bandBits.toUInt64 := by
      obtain ⟨first, keys, listed⟩ : ∃ first keys, resumed = first :: keys := by
        rw [← whole]
        cases examined with
        | nil => exact ⟨next, left, rfl⟩
        | cons first keys => exact ⟨first, _, rfl⟩
      have member : first ∈ resumed := listed ▸ mem_cons_self
      have examinedFirst := started first (by rw [listed]; rfl)
      exact ((within first).mp member).2.trans_lt (below first examinedFirst)
    refine ⟨fun key => ⟨fun member => ?_, ?_⟩, fun _ => further⟩
    · obtain ⟨listed, reached⟩ := (within key).mp (whole ▸ mem_append_left _ member)
      exact ⟨listed, reached, fun _ => below key member⟩
    · rintro ⟨listed, reached, short⟩
      have member : key ∈ resumed := (within key).mpr ⟨listed, reached⟩
      rw [← whole] at member
      refine (mem_append.mp member).resolve_right fun later => ?_
      exact absurd (short (UInt64.zero_le.trans_lt further).ne') (not_lt.mpr (above key later))

theorem examined_sublist (order : List Bytes) (cursor : UInt64) (count bandBits : ℕ) :
    (scanPlan order cursor count bandBits).examined.Sublist order := by
  have first (keys : List Bytes) : (examine bandBits (max count 1) none keys).1.Sublist keys := by
    have left := sublist_append_left (examine bandBits (max count 1) none keys).1
      (examine bandBits (max count 1) none keys).2
    rwa [examine_append] at left
  refine (first _).trans ?_
  split
  · exact .refl _
  · exact dropWhile_sublist _

theorem dvd_next (order : List Bytes) (cursor : UInt64) (count bandBits : ℕ) :
    2 ^ (bandBits.toUInt64.toNat % 64) ∣ (scanPlan order cursor count bandBits).next.toNat := by
  unfold scanPlan
  dsimp only
  split
  · exact dvd_zero _
  · rw [toNat_bandFloor]
    exact dvd_mul_left _ _

/-- A database, a key and the object to ship. -/
abbrev SnapshotEntry : Type := ℕ × Bytes × KvObj

/-- The database to go on in, and where. -/
structure SnapshotCursor where
  dbIndex : ℕ
  scan : UInt64
deriving DecidableEq

namespace SnapshotCursor

def start : SnapshotCursor := ⟨0, 0⟩

def isDone (databases : ℕ) (cursor : SnapshotCursor) : Bool := databases ≤ cursor.dbIndex

/-- The walk has left a place behind. -/
def Passed (cursor : SnapshotCursor) (place : ℕ × Bytes) : Prop :=
  place.1 < cursor.dbIndex ∨ place.1 = cursor.dbIndex ∧ scanHash place.2 < cursor.scan

theorem not_passed_start : ¬start.Passed place := by
  rintro (before | ⟨-, before⟩)
  · exact absurd before (Nat.not_lt_zero _)
  · exact absurd before (not_lt.mpr UInt64.zero_le)

private theorem passed_nextDb : Passed ⟨db + 1, 0⟩ place ↔ place.1 ≤ db := by
  constructor
  · rintro (before | ⟨-, before⟩)
    · exact Nat.le_of_lt_succ before
    · exact absurd before (not_lt.mpr UInt64.zero_le)
  · exact fun within => .inl (Nat.lt_succ_of_le within)

end SnapshotCursor

namespace ShardStore

variable {E : Type}

/-- The object of a key that is present and not due. -/
def snapshotEntry (db now : ℕ) (store : ShardStore E) (key : Bytes) : Option SnapshotEntry :=
  match store.find db key with
  | some entry => if entry.isExpired now then none else some (db, key, entry.toKvobj)
  | none => none

def snapshotScanDb (db : ℕ) (cursor : UInt64) (count : ℕ) (store : ShardStore E) : UInt64 × List Bytes :=
  let order := scanSort (fun key => key) ((store.table db).toList.map Prod.fst)
  if order.isEmpty then (0, [])
  else
    let plan := scanPlan order cursor count 0
    (plan.next, plan.examined)

/-- The walk of a chunk, for so many databases more. -/
def chunkLoop (store : ShardStore E) (budget now : ℕ) :
    ℕ → SnapshotCursor → List SnapshotEntry → List SnapshotEntry × SnapshotCursor
  | 0, cursor, out => (out, cursor)
  | more + 1, cursor, out =>
    let remaining := budget - min out.length budget
    if remaining = 0 then (out, cursor)
    else
      let (next, examined) := store.snapshotScanDb cursor.dbIndex cursor.scan remaining
      let out := out ++ examined.filterMap (store.snapshotEntry cursor.dbIndex now)
      if next = 0 then chunkLoop store budget now more ⟨cursor.dbIndex + 1, 0⟩ out
      else (out, ⟨cursor.dbIndex, next⟩)

def snapshotChunk (cursor : SnapshotCursor) (max now : ℕ) (store : ShardStore E) :
    List SnapshotEntry × SnapshotCursor :=
  chunkLoop store (Nat.max max 1) now (store.databases - cursor.dbIndex) cursor []

variable {store : ShardStore E} {key : Bytes} {cursor : SnapshotCursor}

private theorem mem_snapshotEntry : store.snapshotEntry db now key = some shipped ↔
      ∃ entry, store.find db key = some entry ∧ entry.isExpired now = false ∧
        shipped = (db, key, entry.toKvobj) := by
  unfold snapshotEntry
  cases store.find db key with
  | none => simp
  | some entry =>
    by_cases due : entry.isExpired now = true
    · simp [due]
    dsimp only
    rw [if_neg due]
    constructor
    · intro same
      exact ⟨entry, rfl, Bool.eq_false_iff.mpr due, (Option.some.inj same).symm⟩
    · rintro ⟨_, found, -, rfl⟩
      cases found
      rfl

theorem mem_scanOrder : key ∈ scanSort (fun key => key) ((store.table idx).toList.map Prod.fst) ↔
      (store.find idx key).isSome := by
  rw [scanSort_perm.mem_iff, mem_map, Option.isSome_iff_exists]
  constructor
  · rintro ⟨⟨_, entry⟩, listed, rfl⟩
    exact ⟨entry, OrdMap.mem_toList.mp listed⟩
  · rintro ⟨entry, found⟩
    exact ⟨(key, entry), OrdMap.mem_toList.mpr found, rfl⟩

/-- A call of the scan examines the keys of its database from the cursor up to the next one. -/
private theorem snapshotScanDb_spec (cursor : UInt64) (count : ℕ) :
    (∀ key, key ∈ (store.snapshotScanDb db cursor count).2 ↔ (store.find db key).isSome ∧
      cursor ≤ scanHash key ∧ ((store.snapshotScanDb db cursor count).1 ≠ 0 →
        scanHash key < (store.snapshotScanDb db cursor count).1)) ∧
      ((store.snapshotScanDb db cursor count).1 ≠ 0 → cursor < (store.snapshotScanDb db cursor count).1) := by
  have planned := scanPlan_spec (byHash_scanSort ((store.table db).toList.map Prod.fst)) cursor count 0
  unfold snapshotScanDb
  dsimp only
  split
  · rename_i empty
    refine ⟨fun key => ?_, fun more => absurd rfl more⟩
    rw [← mem_scanOrder, isEmpty_iff.mp empty]
    simp
  · exact ⟨fun key => (planned.1 key).trans (and_congr_left' mem_scanOrder), planned.2⟩

/-- The entries of a walk from one cursor to another: what is live in between. -/
structure Walked (store : ShardStore E) (now : ℕ) (cursor next : SnapshotCursor)
    (entries : List SnapshotEntry) : Prop where
  forward : ∀ place, cursor.Passed place → next.Passed place
  listed : ∀ db key object, (db, key, object) ∈ entries ↔ (¬cursor.Passed (db, key) ∧ next.Passed (db, key)) ∧
      ∃ entry, store.find db key = some entry ∧ entry.isExpired now = false ∧ object = entry.toKvobj

theorem Walked.refl (store : ShardStore E) (now : ℕ) (cursor : SnapshotCursor) :
    Walked store now cursor cursor [] where
  forward := fun _ passed => passed
  listed := by simp

theorem Walked.trans {now : ℕ} {middle next : SnapshotCursor} {before after : List SnapshotEntry}
    (first : Walked store now cursor middle before) (second : Walked store now middle next after) :
    Walked store now cursor next (before ++ after) where
  forward := fun place passed => second.forward place (first.forward place passed)
  listed := fun db key object => by
    rw [mem_append, first.listed, second.listed, ← or_and_right]
    refine and_congr_left fun _ => ?_
    have early := first.forward (db, key)
    have late := second.forward (db, key)
    tauto

/-- One call of the scan walks to the end of its database or to a place in it. -/
private theorem walked_scanDb (store : ShardStore E) (now : ℕ) (cursor : SnapshotCursor) (count : ℕ) :
    Walked store now cursor
      (if (store.snapshotScanDb cursor.dbIndex cursor.scan count).1 = 0 then ⟨cursor.dbIndex + 1, 0⟩
        else ⟨cursor.dbIndex, (store.snapshotScanDb cursor.dbIndex cursor.scan count).1⟩)
      ((store.snapshotScanDb cursor.dbIndex cursor.scan count).2.filterMap
        (store.snapshotEntry cursor.dbIndex now)) := by
  obtain ⟨examined, further⟩ := snapshotScanDb_spec cursor.scan count
  generalize store.snapshotScanDb cursor.dbIndex cursor.scan count = scan at *
  obtain ⟨next, keys⟩ := scan
  dsimp only at examined further ⊢
  have shipped : ∀ db key object, (db, key, object) ∈
      keys.filterMap (store.snapshotEntry cursor.dbIndex now) ↔
        (db = cursor.dbIndex ∧ cursor.scan ≤ scanHash key ∧ (next ≠ 0 → scanHash key < next)) ∧
          ∃ entry, store.find db key = some entry ∧ entry.isExpired now = false ∧
            object = entry.toKvobj := by
    intro db key object
    rw [mem_filterMap]
    constructor
    · rintro ⟨_, member, emitted⟩
      obtain ⟨entry, found, live, same⟩ := mem_snapshotEntry.mp emitted
      cases same
      exact ⟨⟨rfl, ((examined key).mp member).2⟩, entry, found, live, rfl⟩
    · rintro ⟨⟨rfl, reached⟩, entry, found, live, rfl⟩
      refine ⟨key, (examined key).mpr ⟨?_, reached⟩, mem_snapshotEntry.mpr ⟨entry, found, live, rfl⟩⟩
      rw [found]
      rfl
  split
  · rename_i done
    refine ⟨fun place passed => ?_, fun db key object => ?_⟩
    · rw [SnapshotCursor.passed_nextDb]
      rcases passed with before | ⟨same, -⟩
      · exact before.le
      · exact same.le
    · rw [shipped, SnapshotCursor.passed_nextDb]
      refine and_congr_left fun _ => ?_
      unfold SnapshotCursor.Passed
      simp only [done, ne_eq, not_true, false_implies, and_true, not_or, not_and, not_lt]
      constructor
      · rintro ⟨rfl, reached⟩
        exact ⟨⟨le_rfl, fun _ => reached⟩, le_rfl⟩
      · rintro ⟨⟨after, reached⟩, before⟩
        have same : db = cursor.dbIndex := le_antisymm before after
        exact ⟨same, reached same⟩
  · rename_i more
    refine ⟨fun place passed => ?_, fun db key object => ?_⟩
    · rcases passed with before | ⟨same, before⟩
      · exact .inl before
      · exact .inr ⟨same, before.trans (further more)⟩
    · rw [shipped]
      refine and_congr_left fun _ => ?_
      unfold SnapshotCursor.Passed
      simp only [more, ne_eq, not_false_eq_true, true_implies, not_or, not_and, not_lt]
      constructor
      · rintro ⟨rfl, reached, short⟩
        exact ⟨⟨le_rfl, fun _ => reached⟩, .inr ⟨rfl, short⟩⟩
      · rintro ⟨⟨after, reached⟩, before | ⟨same, short⟩⟩
        · exact absurd before (not_lt.mpr after)
        · exact ⟨same, reached same, short⟩

private theorem walked_chunkLoop (cursor : SnapshotCursor) (out : List SnapshotEntry) :
    ∃ entries, (chunkLoop store budget now more cursor out).1 = out ++ entries ∧
      Walked store now cursor (chunkLoop store budget now more cursor out).2 entries := by
  induction more generalizing cursor out with
  | zero => exact ⟨[], (append_nil out).symm, .refl store now cursor⟩
  | succ more ih =>
    unfold chunkLoop
    dsimp only
    split
    · exact ⟨[], (append_nil out).symm, .refl store now cursor⟩
    have walked := walked_scanDb store now cursor (budget - min out.length budget)
    split
    · rename_i done
      rw [if_pos done] at walked
      obtain ⟨entries, listed, rest⟩ := ih ⟨cursor.dbIndex + 1, 0⟩ (out ++ _)
      exact ⟨_, listed.trans (append_assoc _ _ _), walked.trans rest⟩
    · rename_i unfinished
      rw [if_neg unfinished] at walked
      exact ⟨_, rfl, walked⟩

/-- A chunk ships what is live between its cursor and the next one, and nothing else. -/
theorem walked_snapshotChunk (cursor : SnapshotCursor) (max now : ℕ) (store : ShardStore E) :
    Walked store now cursor (store.snapshotChunk cursor max now).2
      (store.snapshotChunk cursor max now).1 := by
  obtain ⟨entries, listed, walked⟩ := walked_chunkLoop cursor []
  unfold snapshotChunk
  rw [listed]
  exact walked

/-- A walk that is done has left every place of the store behind. -/
theorem passed_of_isDone (done : cursor.isDone store.databases = true)
    (inside : place.1 < store.databases) : cursor.Passed place :=
  .inl (inside.trans_le (of_decide_eq_true done))

end ShardStore

end IronCache.Store
