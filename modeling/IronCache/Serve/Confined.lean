import IronCache.Serve.Paths
import IronCache.Store.Apart

/-!
# What a command writes

The keys that a keyed write can change, whichever way it comes to a store.
-/

namespace IronCache.Serve

open Protocol (Request ErrorReply utf8 keySlot)
open Cluster Coord Store ShardStore

/-- The keys that a command writes: those it is routed by, those a blocking command works on, and the
destination that `SORT` reads. -/
def workKeys (timeouts : Timeouts) (request : Request) : List Bytes :=
  let cmdUpper := asciiUpper (command request)
  if isBlockingCommand cmdUpper then
    match parseBlock timeouts cmdUpper request with
    | .ok spec => spec.worked
    | .error _ => []
  else if named ["SORT"] cmdUpper then (sortStore none (request.drop 2)).toList
  else routedKeys cmdUpper request

def isKeyed (cmdUpper : Bytes) : Bool :=
  match Coord.classify cmdUpper with
  | .keyedSingle | .keyedMulti => true
  | .alwaysHome | .wholeKeyspace => false

/-- A write that names keys, or blocks on some. -/
def isKeyedWrite (request : Request) : Bool :=
  let cmdUpper := asciiUpper (command request)
  isWrite cmdUpper && (isBlockingCommand cmdUpper || isKeyed cmdUpper)

section

variable {E κ ν : Type}

/-- Nothing else is seen of other keys than these. -/
def Within (now : ℕ) (keys : List Bytes) (store next : ShardStore E) : Prop :=
  ∀ idx key, key ∉ keys → seen now idx key next = seen now idx key store

theorem within_of_apart (apart : Apart keys store next) : Within now keys store next := by
  intro idx key away
  unfold seen
  rw [apart idx key away]

/-- The data handlers write the keys of their commands only. -/
def Server.Confined (server : Server E κ ν) : Prop :=
  ∀ db now request store, isKeyed (asciiUpper (command request)) = true →
    isBlockingCommand (asciiUpper (command request)) = false →
    Within now (workKeys server.timeouts request) store (server.keyed db now request store).2

/-- A keyed write changes its own keys only. -/
def Run.Confined (timeouts : Timeouts) (run : Run E) : Prop :=
  isKeyedWrite run.request = true →
    Within run.now (workKeys timeouts run.request) run.before run.after

theorem Run.Confined.mem {run : Run E} (confined : run.Confined timeouts)
    (keyed : isKeyedWrite run.request = true) (changes : run.Changes key) :
    key ∈ workKeys timeouts run.request := by
  obtain ⟨idx, changed⟩ := changes
  by_contra away
  exact changed (confined keyed idx key away)

/-- A verb that is neither keyed nor blocking is no keyed write. -/
private theorem named_eq_false_of_keyed (keyed : isKeyedWrite request = true) (verb : String)
    (other : (isWrite (utf8 verb) && (isBlockingCommand (utf8 verb) || isKeyed (utf8 verb))) = false) :
    named [verb] (called request) = false := by
  rw [Bool.eq_false_iff, Ne, named_iff]
  rintro ⟨name, listed, token⟩
  rw [List.mem_singleton.mp listed] at token
  have same : isKeyedWrite request = false := by
    simp only [isKeyedWrite, ← token, other]
  rw [same] at keyed
  cases keyed

variable [EvictionHook E]

private theorem apart_firstServed
    (step : Bytes → Option OccupiedEntryMut → List CollEdit × RmwStep Protocol.Value) (keys : List Bytes)
    (store : ShardStore E) : Apart keys store (firstServed db now step keys store).2 := by
  induction keys generalizing store with
  | nil => exact .of_dbs rfl
  | cons key rest ih =>
    have here : Apart (key :: rest) store (store.rmwMut db key now (step key)).2 :=
      (apart_rmwMut _).mono (by simp)
    unfold firstServed
    split
    next left served =>
      rw [served] at here
      exact here.trans ((ih left).mono (List.subset_cons_self _ _))
    next served =>
      rw [served] at here
      exact here

private theorem apart_moveGeneric (fromLeft toLeft : Bool) (store : ShardStore E) :
    Apart [src, dst] store (moveGeneric db now src dst fromLeft toLeft store).2 := by
  have atSrc {R : Type} (store : ShardStore E) (f : Option OccupiedEntryMut → List CollEdit × RmwStep R) :
      Apart [src, dst] store (store.rmwMut db src now f).2 := (apart_rmwMut f).mono (by simp)
  have typed (store : ShardStore E) : Apart [src, dst] store (typeOf db dst now store).2 :=
    (apart_expireIfDue now).mono (by simp)
  unfold moveGeneric
  split
  · exact atSrc store _
  have popped := atSrc store (popOneStep fromLeft)
  generalize store.rmwMut db src now (popOneStep fromLeft) = taken at popped
  match taken, popped with
  | (.error (), left), popped => exact popped
  | (.ok none, left), popped => exact popped
  | (.ok (some elem), left), popped =>
    have looked := popped.trans (typed left)
    dsimp only
    generalize typeOf db dst now left = kind at looked
    match kind, looked with
    | (some .list, last), looked => exact looked.trans ((apart_rmwMut _).mono (by simp))
    | (none, last), looked => exact looked.trans ((apart_rmwMut _).mono (by simp))
    | (some .string, last), looked => exact looked.trans (atSrc last _)
    | (some .hash, last), looked => exact looked.trans (atSrc last _)
    | (some .set, last), looked => exact looked.trans (atSrc last _)
    | (some .zset, last), looked => exact looked.trans (atSrc last _)

private theorem apart_tryBlockOp (human : F64 → Bytes) (spec : BlockSpec) (store : ShardStore E) :
    Apart spec.worked store (tryBlockOp human db now spec store).2 := by
  unfold BlockSpec.worked tryBlockOp
  cases spec.op with
  | move fromLeft toLeft =>
    have moved : Apart [spec.keys.getD 0 [], spec.keys.getD 1 []] store (moveGeneric db now
      (spec.keys.getD 0 []) (spec.keys.getD 1 []) fromLeft toLeft store).2 := apart_moveGeneric _ _ _
    dsimp only
    split
    next answer =>
      rw [answer] at moved
      exact moved
    next answer =>
      rw [answer] at moved
      exact moved
  | wait numreplicas => exact .of_dbs rfl
  | _ => exact apart_firstServed _ _ _

/-- A blocking command, at once or inside a transaction. -/
theorem within_tryBlockOp (blocks : isBlockingCommand (called request) = true)
    (parsed : parseBlock timeouts (called request) request = .ok spec) (human : F64 → Bytes) (db now : ℕ)
    (store : ShardStore E) :
    Within now (workKeys timeouts request) store (tryBlockOp human db now spec store).2 := by
  unfold workKeys
  dsimp only
  rw [if_pos blocks, parsed]
  exact within_of_apart (apart_tryBlockOp human spec store)

variable {server : Server E κ ν} {request : Request} (confined : server.Confined)
include confined

theorem within_dispatchInner (keyed : isKeyedWrite request = true) (now : ℕ) (conn : Conn κ)
    (store : ShardStore E) : Within now (workKeys server.timeouts request) store
      (dispatchInner server now request conn store).store := by
  have other := named_eq_false_of_keyed keyed
  unfold dispatchInner
  dsimp only
  rw [other "MULTI" (by decide +kernel), other "DISCARD" (by decide +kernel),
    other "WATCH" (by decide +kernel), other "UNWATCH" (by decide +kernel),
    other "RESET" (by decide +kernel), other "READONLY" (by decide +kernel),
    other "READWRITE" (by decide +kernel), other "ASKING" (by decide +kernel),
    other "WAIT" (by decide +kernel)]
  simp only [Bool.false_eq_true, if_false, Bool.not_false, Bool.and_true]
  split
  next blocks =>
    unfold cmdBlockNonblocking
    split
    · exact fun _ _ _ => rfl
    next spec parsed => exact within_tryBlockOp blocks parsed server.human conn.db now store
  next waits =>
    have waits := Bool.eq_false_iff.mpr waits
    have class_keyed : isKeyed (called request) = true := by
      simpa [isKeyedWrite, waits] using (Bool.and_eq_true_iff.mp keyed).2
    have written := confined conn.db now request store class_keyed waits
    unfold isKeyed at class_keyed
    split
    next home =>
      rw [home] at class_keyed
      cases class_keyed
    · exact written
    · exact written
    · exact written

private theorem confined_replay (batch : List Request) (conn : Conn κ) (store : ShardStore E) :
    ∀ run ∈ (replay server now c asking batch conn store).2.runs, run.Confined server.timeouts := by
  induction batch generalizing conn store with
  | nil => exact fun run member => nomatch member
  | cons request batch ih =>
    unfold replay
    split
    · exact ih conn store
    · refine List.forall_mem_cons.mpr ⟨fun keyed => ?_, ih _ _⟩
      exact within_dispatchInner confined keyed now conn store

theorem confined_handleRequest (now c inSync : ℕ) (asking : Bool) (request : Request) (conn : Conn κ)
    (store : ShardStore E) : ∀ run ∈ (handleRequest server now c inSync asking request conn store).runs,
      run.Confined server.timeouts := by
  have still : ∀ run ∈ ([] : List (Run E)), run.Confined server.timeouts :=
    fun run member => nomatch member
  unfold handleRequest
  dsimp only
  split
  · split <;> exact still
  split
  · unfold execTransaction bare
    split
    · exact still
    split
    · exact still
    split
    · exact still
    split
    · exact still
    · exact confined_replay confined _ _ _
  · exact List.forall_mem_singleton.mpr fun keyed =>
      within_dispatchInner confined keyed now conn store

end

end IronCache.Serve
