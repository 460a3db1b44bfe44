import IronCache.Serve.Keyspace
import IronCache.Serve.Node
import IronCache.Store.Scan

/-!
# The scan of all shards

A call of `SCAN` walks a part of one shard (`whole_keyspace.rs`), and between two calls the shards
may change in any way.
-/

namespace IronCache

open List

namespace Store.ShardStore

variable {E : Type}

/-- Present, not due, and wanted. -/
def shows (db now : ℕ) (keep : Bytes → DataType → Bool) (store : ShardStore E) (key : Bytes) :
    Bool :=
  (store.find (store.dbIndex db) key).any fun entry =>
    !entry.isExpired now && keep key entry.dataType

def scanStep (bandBits db : ℕ) (cursor : UInt64) (count now : ℕ) (keep : Bytes → DataType → Bool)
    (store : ShardStore E) : UInt64 × List Bytes :=
  let order := scanSort (fun key => key) ((store.table (store.dbIndex db)).toList.map Prod.fst)
  if order.isEmpty then (0, [])
  else
    let plan := scanPlan order cursor count bandBits
    (plan.next, plan.examined.filter (store.shows db now keep))

/-- A step returns what the store shows from its cursor up to the next one, each key once. -/
structure Stepped (bandBits db : ℕ) (cursor : UInt64) (now : ℕ) (keep : Bytes → DataType → Bool)
    (store : ShardStore E) (step : UInt64 × List Bytes) : Prop where
  mem : ∀ key, key ∈ step.2 ↔ store.shows db now keep key = true ∧ cursor ≤ scanHash key ∧
    (step.1 ≠ 0 → scanHash key < step.1)
  nodup : step.2.Nodup
  further : step.1 ≠ 0 → cursor < step.1
  aligned : 2 ^ (bandBits.toUInt64.toNat % 64) ∣ step.1.toNat

private theorem stepped_scanStep (bandBits db : ℕ) (cursor : UInt64) (count now : ℕ)
    (keep : Bytes → DataType → Bool) : Stepped bandBits db cursor now keep store
      (store.scanStep bandBits db cursor count now keep) := by
  have shown (key : Bytes) (shows : store.shows db now keep key = true) :
      (store.find (store.dbIndex db) key).isSome := by
    unfold ShardStore.shows at shows
    cases found : store.find (store.dbIndex db) key with
    | none => simp [found] at shows
    | some entry => rfl
  have planned := scanPlan_spec (byHash_scanSort
    ((store.table (store.dbIndex db)).toList.map Prod.fst)) cursor count bandBits
  unfold scanStep
  dsimp only
  split
  next empty =>
    refine ⟨fun key => ⟨fun member => absurd member not_mem_nil, fun shows => ?_⟩, .nil,
      fun more => absurd rfl more, dvd_zero _⟩
    have member := mem_scanOrder.mpr (shown key shows.1)
    rw [isEmpty_iff.mp empty] at member
    exact member
  next =>
    refine ⟨fun key => ?_, ?_, planned.2, dvd_next _ _ _ _⟩
    · rw [mem_filter, planned.1, mem_scanOrder, and_comm]
      exact and_congr_right fun shows => and_iff_right (shown key shows)
    · refine List.Nodup.filter _ (List.Nodup.sublist (examined_sublist _ _ _ _) ?_)
      exact scanSort_perm.nodup_iff.mpr (OrdMap.keys_nodup _)

end Store.ShardStore

namespace Serve

open Protocol (Request ErrorReply Value utf8)
open Coord
open Store hiding Value

def scanReservedBits (shards : ℕ) : ℕ := if 1 < shards then 8 else 0

/-- The cursor of a place, which is a shard and how far its walk is. Behind the last shard an
iteration is done. -/
def wire (shards : ℕ) (place : ℕ × UInt64) : UInt64 :=
  if shards ≤ place.1 then 0 else compose place.1 place.2 shards

/-- Where a step leads that came to a cursor of the shard. -/
def advance (shard : ℕ) (next : UInt64) : ℕ × UInt64 :=
  if next = 0 then (shard + 1, 0) else (shard, next)

/-- A shard leaves the low bits of its cursors to the index of the shard. -/
def Aligned (shards : ℕ) (inner : UInt64) : Prop := 1 < shards → 256 ∣ inner.toNat

private theorem aligned_of_dvd {shards : ℕ} {inner : UInt64}
    (dvd : 2 ^ ((scanReservedBits shards).toUInt64.toNat % 64) ∣ inner.toNat) :
    Aligned shards inner := by
  intro several
  rw [scanReservedBits, if_pos several] at dvd
  exact dvd

section Cursors

variable {shards shard : ℕ} {inner next : UInt64}

theorem toNat_wire (few : shards ≤ 256) (inside : shard < shards) : (wire shards (shard, inner)).toNat =
      if shards ≤ 1 then inner.toNat else shard * 2 ^ 56 + inner.toNat / 256 := by
  rw [wire, if_neg (not_le.mpr inside), compose]
  split
  · rfl
  have small : inner.toNat / 256 < 2 ^ 56 := by
    have bound := inner.toNat_lt
    omega
  have high : (UInt64.ofNat shard <<< (64 - shardBits)).toNat = shard * 2 ^ 56 := by
    rw [UInt64.toNat_shiftLeft, UInt64.toNat_ofNat_of_lt' (by rw [UInt64.size]; omega)]
    change shard <<< 56 % 2 ^ 64 = _
    rw [Nat.shiftLeft_eq]
    exact Nat.mod_eq_of_lt (by omega)
  have low : (inner >>> shardBits).toNat = inner.toNat / 256 := by
    exact Nat.shiftRight_eq_div_pow _ _
  rw [UInt64.toNat_or, high, low, ← Nat.shiftLeft_eq, Nat.shiftLeft_add_eq_or_of_lt small]

private theorem decompose_wire (few : shards ≤ 256) (inside : shard < shards)
    (aligned : Aligned shards inner) :
    decompose (wire shards (shard, inner)) shards = (shard, inner) := by
  have value : (wire shards (shard, inner)).toNat = _ := toNat_wire few inside
  unfold decompose
  split at value
  next one =>
    rw [if_pos one]
    exact Prod.ext (by omega) (UInt64.toNat_inj.mp value)
  next several =>
    have whole := aligned (by omega)
    have bound := inner.toNat_lt
    rw [if_neg several]
    refine Prod.ext ?_ (UInt64.toNat_inj.mp ?_)
    · rw [UInt64.toNat_shiftRight, value]
      change (shard * 2 ^ 56 + inner.toNat / 256) >>> 56 = shard
      omega
    · rw [UInt64.toNat_shiftLeft, value]
      change (shard * 2 ^ 56 + inner.toNat / 256) <<< 8 % 2 ^ 64 = inner.toNat
      omega

/-- The cursors of an iteration grow. -/
private theorem wire_lt (few : shards ≤ 256) (inside : (advance shard next).1 < shards)
    (further : next ≠ 0 → inner < next) (aligned : Aligned shards next) :
    (wire shards (shard, inner)).toNat < (wire shards (advance shard next)).toNat := by
  have bound := inner.toNat_lt
  by_cases last : next = 0
  · rw [advance, if_pos last] at inside ⊢
    rw [toNat_wire few (Nat.lt_of_succ_lt inside), toNat_wire few inside]
    have several : ¬shards ≤ 1 := by
      omega
    rw [if_neg several, if_neg several]
    omega
  rw [advance, if_neg last] at inside ⊢
  have below := UInt64.lt_iff_toNat_lt.mp (further last)
  rw [toNat_wire few inside, toNat_wire few inside]
  split
  next => exact below
  next several =>
    obtain ⟨other, equal⟩ := aligned (by omega)
    omega

end Cursors

def ScanOptions.keep (globMatch : Bytes → Bytes → Bool) (options : ScanOptions) (key : Bytes)
    (type : DataType) : Bool :=
  options.typeFilter.accepts type && options.pattern.all (globMatch · key)

/-- A call: when it is served, what the shards hold then, and the options it names. -/
structure ScanCall (E : Type) where
  now : ℕ
  shards : ℕ → ShardStore E
  tail : List Bytes

def scanned (token : Bytes) (keys : List Bytes) : Value :=
  .array (some [.bulkString (some token), keyBulks keys])

section Iterations

variable {E κ : Type}

/-- Consecutive calls from `0` on, each with the cursor of the one before, as long as that is not
the final one; the cursor they come to and the keys they return. -/
inductive Iterates (reply : Bytes → ScanCall E → Value) : List (ScanCall E) → Bytes → List Bytes → Prop
  | start : Iterates reply [] (utf8 "0") []
  | call {seen : List Bytes} (before : Iterates reply calls token seen) (more : calls = [] ∨ token ≠ utf8 "0")
      (answered : reply token call = scanned later page) :
      Iterates reply (calls ++ [call]) later (seen ++ page)

/-- During a call a shard holds the key live, and the key passes the filters of the call. -/
def ScanCall.Shows (globMatch : Bytes → Bytes → Bool) (db : ℕ) (call : ScanCall E) (shard : ℕ)
    (key : Bytes) : Prop :=
  ∃ options, parseScanOptions call.tail {} = .ok options ∧
    (call.shards shard).shows db call.now (options.keep globMatch) key = true

/-- What `SCAN` replies on a node whose engine at each time is given. -/
def scanReply (site : ℕ → Engine (ShardStore E) κ) (home : ShardId) (db : ℕ) (token : Bytes)
    (call : ScanCall E) : Value :=
  ((scanCrossShard (utf8 "SCAN" :: token :: call.tail) home db false).run (site call.now).serve
    call.shards).1

/-- The walk has been where a shard has the key. -/
def Walked (place : ℕ × UInt64) (key : Bytes) (shard : ℕ) : Prop :=
  shard < place.1 ∨ shard = place.1 ∧ scanHash key < place.2

instance decidableWalked (place : ℕ × UInt64) (key : Bytes) : DecidablePred (Walked place key) :=
  fun _ => inferInstanceAs (Decidable (_ ∨ _))

variable [EvictionHook E] {walks : Walks E} {site : ℕ → Engine (ShardStore E) κ} {home : ShardId} {db : ℕ}

def scanning (walks : Walks E) (shards : ℕ) : Walks E :=
  { walks with scanStep := fun db cursor count now keep store =>
      store.scanStep (scanReservedBits shards) db cursor count now keep }

private theorem rewriteScanReply_scanned (next : UInt64) (keys : List Bytes) {shard shards : ℕ}
    (inside : shard < shards) : rewriteScanReply (scanned (toToken next) keys) shard shards false =
      scanned (toToken (wire shards (advance shard next))) keys := by
  simp only [rewriteScanReply, scanned, fromToken_toToken, Option.getD_some, wire, advance]
  by_cases last : next = 0
  · simp only [last, if_true, Bool.false_or, decide_eq_true_eq]
  · simp only [last, if_false, not_le.mpr inside]

/-- A call at a place walks the shard of that place. -/
theorem scanReply_wire (runs : ∀ now, RunsWhole (scanning walks home.total) now (site now))
    (few : home.total ≤ 256) {place : ℕ × UInt64} (inside : place.1 < home.total)
    (aligned : Aligned home.total place.2) (call : ScanCall E) :
    scanReply site home db (toToken (wire home.total place)) call =
      match parseScanOptions call.tail {} with
      | .error reply => .error reply
      | .ok options =>
        let step := (call.shards place.1).scanStep (scanReservedBits home.total) db place.2
          options.count call.now (options.keep walks.globMatch)
        scanned (toToken (wire home.total (advance place.1 step.1))) step.2 := by
  have spelt : utf8 "SCAN" = asciiUpper (utf8 "SCAN") := by decide
  rw [scanReply, run_scanCrossShard (runs call.now) spelt (fromToken_toToken _)
    (decompose_wire few inside aligned) inside]
  simp only [cmdScan, fromToken_toToken]
  cases parseScanOptions call.tail {} with
  | error reply => rfl
  | ok options => exact rewriteScanReply_scanned _ _ inside

omit [EvictionHook E] in
private theorem walked_advance {place : ℕ × UInt64} {next : UInt64} {key : Bytes}
    (further : next ≠ 0 → place.2 < next)
    {shard : ℕ} : Walked (advance place.1 next) key shard ↔ Walked place key shard ∨
      shard = place.1 ∧ place.2 ≤ scanHash key ∧ (next ≠ 0 → scanHash key < next) := by
  unfold Walked advance
  rcases lt_or_ge (scanHash key) place.2 with past | ahead
  · by_cases last : next = 0
    · simp [last, past, not_le.mpr past, le_iff_lt_or_eq]
    · simp [last, past, not_le.mpr past, past.trans (further last)]
  · by_cases last : next = 0
    · simp [last, ahead, not_lt.mpr ahead, le_iff_lt_or_eq]
    · simp [last, ahead, not_lt.mpr ahead]

omit [EvictionHook E] in
/-- A step passes at most one more shard that has the key. -/
private theorem card_walked_advance {place : ℕ × UInt64} {next : UInt64} {key : Bytes}
    (further : next ≠ 0 → place.2 < next) (holders : Finset ℕ) :
    (holders.filter (Walked (advance place.1 next) key)).card =
      (holders.filter (Walked place key)).card +
        if place.1 ∈ holders ∧ place.2 ≤ scanHash key ∧ (next ≠ 0 → scanHash key < next) then 1 else 0 := by
  split_ifs with here
  · have more : holders.filter (Walked (advance place.1 next) key) =
        insert place.1 (holders.filter (Walked place key)) := by
      ext shard
      rw [Finset.mem_insert, Finset.mem_filter, Finset.mem_filter, walked_advance further]
      constructor
      · rintro ⟨member, past | ⟨same, -⟩⟩
        · exact .inr ⟨member, past⟩
        · exact .inl same
      · rintro (rfl | ⟨member, past⟩)
        · exact ⟨here.1, .inr ⟨rfl, here.2⟩⟩
        · exact ⟨member, .inl past⟩
    rw [more, Finset.card_insert_of_notMem]
    rw [Finset.mem_filter]
    rintro ⟨-, less | ⟨-, less⟩⟩
    · exact less.ne rfl
    · exact not_le.mpr less here.2.1
  · refine congrArg Finset.card (Finset.filter_congr fun shard member => ?_)
    rw [walked_advance further]
    refine or_iff_left fun same => here ⟨same.1 ▸ member, same.2⟩

/-- Where the calls of an iteration have come to: a key was returned at least once for each passed
shard that showed it in every call, and at most once for each that did in some. -/
structure Reached (globMatch : Bytes → Bytes → Bool) (total db : ℕ) (calls : List (ScanCall E))
    (token : Bytes) (seen : List Bytes) (place : ℕ × UInt64) : Prop where
  opened : calls = [] → place = (0, 0)
  token : token = toToken (wire total place)
  aligned : Aligned total place.2
  counted : place.1 < total → calls.length ≤ (wire total place).toNat
  least : ∀ key (holders : Finset ℕ), (∀ call ∈ calls, ∀ shard ∈ holders, call.Shows globMatch db shard key) →
    (holders.filter (Walked place key)).card ≤ seen.count key
  most : ∀ key (holders : Finset ℕ), (∀ call ∈ calls, ∀ shard < total,
      call.Shows globMatch db shard key → shard ∈ holders) →
    seen.count key ≤ (holders.filter (Walked place key)).card

variable {calls : List (ScanCall E)} {token : Bytes} {seen : List Bytes}

omit [EvictionHook E] in
theorem Reached.call (few : total ≤ 256)
    (reached : Reached globMatch total db calls token seen place) (inside : place.1 < total)
    {call : ScanCall E} {options : ScanOptions}
    (parsed : parseScanOptions call.tail {} = .ok options) {step : UInt64 × List Bytes}
    (stepped : (call.shards place.1).Stepped (scanReservedBits total) db place.2 call.now
      (options.keep globMatch) step) :
    Reached globMatch total db (calls ++ [call]) (toToken (wire total (advance place.1 step.1)))
      (seen ++ step.2) (advance place.1 step.1) where
  opened empty := absurd empty (by simp)
  token := rfl
  aligned := by
    unfold advance
    split
    · exact fun _ => dvd_zero _
    · exact aligned_of_dvd stepped.aligned
  counted room := by
    have grown := wire_lt few room stepped.further (aligned_of_dvd stepped.aligned)
    have before : calls.length ≤ (wire total (place.1, place.2)).toNat := reached.counted inside
    rw [length_append, length_singleton]
    omega
  least key holders shown := by
    have before := reached.least key holders fun other member => shown other (by simp [member])
    rw [card_walked_advance stepped.further, count_append]
    refine Nat.add_le_add before ?_
    split_ifs with here
    · obtain ⟨own, same, shows⟩ := shown call (by simp) place.1 here.1
      obtain rfl : options = own := Except.ok.inj (parsed.symm.trans same)
      exact one_le_count_iff.mpr ((stepped.mem key).mpr ⟨shows, here.2⟩)
    · exact Nat.zero_le _
  most key holders shown := by
    have before := reached.most key holders fun other member => shown other (by simp [member])
    rw [card_walked_advance stepped.further, count_append]
    refine Nat.add_le_add before ?_
    by_cases member : key ∈ step.2
    · obtain ⟨shows, here⟩ := (stepped.mem key).mp member
      rw [if_pos ⟨shown call (by simp) place.1 inside ⟨options, parsed, shows⟩, here⟩]
      exact (count_eq_one_of_mem stepped.nodup member).le
    · rw [count_eq_zero_of_not_mem member]
      exact Nat.zero_le _

omit [EvictionHook E] in
theorem Reached.inside (some : 0 < total) (reached : Reached globMatch total db calls token seen place)
    (more : calls = [] ∨ token ≠ utf8 "0") : place.1 < total := by
  rcases more with empty | unfinished
  · rw [reached.opened empty]
    exact some
  by_contra done
  have final : token = toToken 0 := by
    rw [reached.token, wire, if_pos (not_lt.mp done)]
  exact unfinished (final.trans (by decide))

theorem Iterates.reached (runs : ∀ now, RunsWhole (scanning walks home.total) now (site now))
    (some : 0 < home.total) (few : home.total ≤ 256)
    (iterates : Iterates (scanReply site home db) calls token seen) :
    ∃ place, Reached walks.globMatch home.total db calls token seen place := by
  induction iterates with
  | start =>
    have first : wire home.total (0, 0) = 0 := by
      rw [wire, if_neg (not_le.mpr some), compose]
      split
      · rfl
      · rfl
    have none (key : Bytes) (shard : ℕ) : ¬Walked (0, 0) key shard := by
      rintro (less | ⟨-, less⟩)
      · exact absurd less (Nat.not_lt_zero _)
      · exact absurd less UInt64.not_lt_zero
    refine ⟨(0, 0), fun _ => rfl, by rw [first]; decide, fun _ => dvd_zero _, fun _ => Nat.zero_le _,
      fun key holders _ => ?_, fun key holders _ => Nat.zero_le _⟩
    rw [Finset.filter_false_of_mem fun shard _ => none key shard]
    exact Nat.zero_le _
  | @call calls token call next keys seen before more answered ih =>
    obtain ⟨place, reached⟩ := ih
    have inside := reached.inside some more
    rw [reached.token, scanReply_wire runs few inside reached.aligned] at answered
    cases parsed : parseScanOptions call.tail {} with
    | error reply =>
      rw [parsed] at answered
      cases answered
    | ok options =>
      rw [parsed] at answered
      have stepped := (call.shards place.1).stepped_scanStep (scanReservedBits home.total) db
        place.2 options.count call.now (options.keep walks.globMatch)
      dsimp only at answered
      generalize (call.shards place.1).scanStep _ _ _ _ _ _ = step at answered stepped
      obtain ⟨same, listed⟩ : toToken (wire home.total (advance place.1 step.1)) = next ∧ step.2 = keys := by
        simp only [scanned, keyBulks, Value.array.injEq, Option.some.injEq, List.cons.injEq,
          Value.bulkString.injEq, and_true] at answered
        refine ⟨answered.1, ?_⟩
        have injective : Function.Injective fun key : Bytes => Value.bulkString (.some key) :=
          fun _ _ same => Option.some.inj (Value.bulkString.inj same)
        exact map_injective_iff.mpr injective answered.2
      rw [← same, ← listed]
      exact ⟨_, reached.call few inside parsed stepped⟩

/-- At the end of an iteration every shard is passed. -/
theorem Iterates.counts (runs : ∀ now, RunsWhole (scanning walks home.total) now (site now))
    (some : 0 < home.total) (few : home.total ≤ 256) (begun : calls ≠ [])
    (iterates : Iterates (scanReply site home db) calls (utf8 "0") seen) :
    (∀ key (holders : Finset ℕ), (∀ shard ∈ holders, shard < home.total) →
      (∀ call ∈ calls, ∀ shard ∈ holders, call.Shows walks.globMatch db shard key) →
        holders.card ≤ seen.count key) ∧
    ∀ key (holders : Finset ℕ), (∀ call ∈ calls, ∀ shard < home.total,
      call.Shows walks.globMatch db shard key → shard ∈ holders) → seen.count key ≤ holders.card := by
  obtain ⟨place, reached⟩ := iterates.reached runs some few
  have done : home.total ≤ place.1 := by
    by_contra inside
    have counted := reached.counted (not_le.mp inside)
    have final : wire home.total place = 0 := by
      have parsed : fromToken (utf8 "0") = .some 0 := by decide
      rw [reached.token, fromToken_toToken] at parsed
      exact Option.some.inj parsed
    rw [final] at counted
    exact begun (eq_nil_of_length_eq_zero (Nat.le_zero.mp counted))
  refine ⟨fun key holders below shown => ?_, fun key holders shown => ?_⟩
  · have least := reached.least key holders shown
    rwa [Finset.filter_true_of_mem fun shard member => .inl ((below shard member).trans_le done)] at least
  · exact (reached.most key holders shown).trans (Finset.card_filter_le _ _)

/-- However the shards change, an iteration goes on to its end. -/
theorem iterates_final (runs : ∀ now, RunsWhole (scanning walks home.total) now (site now))
    (some : 0 < home.total) (few : home.total ≤ 256) (calls : ℕ → ScanCall E)
    (valid : ∀ n, ∃ options, parseScanOptions (calls n).tail {} = .ok options) : ∃ n seen, 0 < n ∧
      Iterates (scanReply site home db) ((List.range n).map calls) (utf8 "0") seen := by
  by_contra never
  -- Otherwise every number of calls comes to a cursor, and cursors grow with it.
  have onward (n : ℕ) : ∃ token seen, Iterates (scanReply site home db)
      ((List.range n).map calls) token seen ∧ (n = 0 ∨ token ≠ utf8 "0") := by
    induction n with
    | zero => exact ⟨_, _, .start, .inl rfl⟩
    | succ n ih =>
      obtain ⟨token, seen, iterates, more⟩ := ih
      obtain ⟨place, reached⟩ := iterates.reached runs some few
      obtain ⟨options, parsed⟩ := valid n
      have unfinished : (List.range n).map calls = [] ∨ token ≠ utf8 "0" :=
        more.imp_left fun zero => by simp [zero]
      have answered : scanReply site home db _ (calls n) = _ :=
        scanReply_wire runs few (reached.inside some unfinished) reached.aligned (calls n)
      rw [← reached.token, parsed] at answered
      have longer := iterates.call unfinished answered
      rw [← map_singleton, ← map_append, ← range_succ] at longer
      refine ⟨_, _, longer, .inr fun final => ?_⟩
      rw [final] at longer
      exact never ⟨n + 1, _, Nat.succ_pos n, longer⟩
  obtain ⟨token, seen, iterates, more⟩ := onward (2 ^ 64)
  obtain ⟨place, reached⟩ := iterates.reached runs some few
  have counted := reached.counted (reached.inside some (.inr (more.resolve_left (by decide))))
  have bound := (wire home.total place).toNat_lt
  rw [length_map, length_range] at counted
  omega

/-- Cursors followed from `0` come back to `0`, and then every key that its owner showed in each call
was returned, just once if no other shard showed it in any, and more than once if another did in
each. On one shard the calls are those of its own handler. -/
theorem scan_complete (walks : Walks E) {site : ℕ → Engine (ShardStore E) κ} {home : ShardId}
    (runs : ∀ now, RunsWhole (scanning walks home.total) now (site now)) (some : 0 < home.total)
    (few : home.total ≤ 256) (db : ℕ) : (∀ calls : ℕ → ScanCall E,
      (∀ n, ∃ options, parseScanOptions (calls n).tail {} = .ok options) → ∃ n seen, 0 < n ∧
        Iterates (scanReply site home db) ((List.range n).map calls) (utf8 "0") seen) ∧
    (∀ calls seen, calls ≠ [] → Iterates (scanReply site home db) calls (utf8 "0") seen → ∀ key,
      (∀ call ∈ calls, call.Shows walks.globMatch db (ownerShard key home.total) key) → key ∈ seen ∧
        ((∀ call ∈ calls, ∀ shard < home.total, call.Shows walks.globMatch db shard key →
          shard = ownerShard key home.total) → seen.count key = 1) ∧
        ∀ shard < home.total, shard ≠ ownerShard key home.total →
          (∀ call ∈ calls, call.Shows walks.globMatch db shard key) → 1 < seen.count key) ∧
    (home.total = 1 → ∀ token call, scanReply site home db token call =
      cmdScan (scanning walks 1) db call.now (utf8 "SCAN" :: token :: call.tail)
        (call.shards 0)) := by
  refine ⟨iterates_final runs some few, fun calls seen begun iterates key shown => ?_, ?_⟩
  · obtain ⟨least, most⟩ := iterates.counts runs some few begun
    have owner := ownerShard_lt key some
    have once : 1 ≤ seen.count key :=
      least key {ownerShard key home.total} (by simpa using owner) (by simpa using shown)
    refine ⟨one_le_count_iff.mp once, fun alone => le_antisymm ?_ once, fun shard inside other also => ?_⟩
    · exact most key {ownerShard key home.total} fun call member shard inside shows =>
        Finset.mem_singleton.mpr (alone call member shard inside shows)
    · have both := least key {shard, ownerShard key home.total} (by simpa using ⟨inside, owner⟩)
        fun call member => by simpa using ⟨also call member, shown call member⟩
      rwa [Finset.card_pair other] at both
  · obtain ⟨index, total⟩ := home
    rintro rfl token call
    have spelt : utf8 "SCAN" = asciiUpper (command (utf8 "SCAN" :: token :: call.tail)) :=
      show utf8 "SCAN" = asciiUpper (utf8 "SCAN") by decide
    exact congrArg Prod.fst (run_scanCrossShard_one (runs call.now) spelt db call.shards)

end Iterations

def scanWalks : Walks NullEviction :=
  ⟨fun _ _ _ _ _ _ => (0, []), fun _ _ => true, fun _ _ _ _ => [], fun _ _ store => (none, store)⟩

def scanSite (now : ℕ) : Engine (ShardStore NullEviction) Unit where
  databases := 1
  run store db request := dispatchWholeKeyspace (scanning scanWalks 2) db now request store
  handleRequest store conn _ _ := (⟨(conn.proto, .null), false, conn⟩, store)
  nextU64 store := (0, store)
  spanningCombine _ _ _ := .done .null
  serveLayer _ _ _ := none
  unknownCommand _ := .syntaxError

/-- A call on two shards, of which one owns the key `a` and the other the key `b`. -/
def scanCall (events : List (Event ℕ)) : ScanCall NullEviction where
  now := 0
  shards := (twoShards.run (smallServer 2 0) events).stores
  tail := []

def pushedApart : List (Event ℕ) :=
  [.command 0 0 (words ["RPUSH", "a", "x"]), .command 0 0 (words ["RPUSH", "b", "y"]), .serve 0 0]

theorem scan_complete_two : ∃ n seen,
    Iterates (scanReply scanSite ⟨0, 2⟩ 0) ((List.range n).map fun _ => scanCall pushedApart) (utf8 "0") seen ∧
      seen.count (utf8 "a") = 1 ∧ seen.count (utf8 "b") = 1 := by
  obtain ⟨final, returned, -⟩ := @scan_complete _ _ _ _ scanSite ⟨0, 2⟩
    (fun _ => ⟨fun _ _ _ _ => rfl⟩) (by decide) (by decide) 0
  obtain ⟨n, seen, begun, iterates⟩ := final (fun _ => scanCall pushedApart) fun _ => ⟨{}, rfl⟩
  have once (key : Bytes) (shows : ∀ shard < 2, ((scanCall pushedApart).shards shard).shows 0 0
      (({} : ScanOptions).keep fun _ _ => true) key = decide (shard = ownerShard key 2)) : seen.count key = 1 := by
    have owner := ownerShard_lt key Nat.zero_lt_two
    refine (returned _ seen ?_ iterates key ?_).2.1 ?_
    · simpa using begun.ne'
    · intro call member
      obtain ⟨-, -, rfl⟩ := mem_map.mp member
      exact ⟨{}, rfl, (shows _ owner).trans (decide_eq_true rfl)⟩
    · intro call member shard inside ⟨options, parsed, shown⟩
      obtain ⟨-, -, rfl⟩ := mem_map.mp member
      cases parsed
      exact of_decide_eq_true ((shows shard inside).symm.trans shown)
  exact ⟨n, seen, iterates, once _ (by decide +kernel), once _ (by decide +kernel)⟩

/-- `BRPOPLPUSH` runs on the shard of its connection, which then holds `b` as well: a scan that
nothing disturbs returns the key twice. -/
theorem scan_repeats_moved :
    let call := scanCall (pushedApart ++ [.command 0 0 (words ["BRPOPLPUSH", "a", "b", "0"])])
    ∃ n seen, Iterates (scanReply scanSite ⟨0, 2⟩ 0) ((List.range n).map fun _ => call) (utf8 "0") seen ∧
      1 < seen.count (utf8 "b") := by
  intro call
  have runs (now : ℕ) : RunsWhole (scanning scanWalks 2) now (scanSite now) := ⟨fun _ _ _ _ => rfl⟩
  obtain ⟨n, seen, begun, iterates⟩ := @iterates_final _ _ _ _ _ ⟨0, 2⟩ 0 runs (by decide) (by decide)
    (fun _ => call) fun _ => ⟨{}, rfl⟩
  obtain ⟨least, -⟩ := iterates.counts runs (by decide) (by decide) (by simpa using begun.ne')
  refine ⟨n, seen, iterates, least (utf8 "b") {0, 1} (by decide) fun other member shard holds => ?_⟩
  obtain ⟨-, -, rfl⟩ := mem_map.mp member
  refine ⟨{}, rfl, ?_⟩
  revert shard
  decide +kernel

end Serve

end IronCache
