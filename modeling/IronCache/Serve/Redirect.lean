import IronCache.Cluster.SlotMap
import IronCache.Coord.Routing

/-!
# Redirects

The gates of `serve_routing.rs`: the redirect by the slot map and the guardrail
`min-replicas-to-write`.
-/

namespace IronCache

namespace Protocol

def ErrorReply.crossslot : ErrorReply where
  code := .crossSlot
  message := utf8 "Keys in request don't hash to the same slot"

def ErrorReply.moved (slot : ℕ) (addr : Bytes) : ErrorReply where
  code := .moved
  message := Decimal.print slot ++ 32 :: addr

def ErrorReply.ask (slot : ℕ) (addr : Bytes) : ErrorReply where
  code := .ask
  message := Decimal.print slot ++ 32 :: addr

def ErrorReply.tryagain : ErrorReply where
  code := .tryAgain
  message := utf8 "Multiple keys request during rehashing of slot"

def ErrorReply.noReplicas : ErrorReply where
  code := .noReplicas
  message := utf8 "Not enough good replicas to write."

end Protocol

namespace Serve

open Protocol (Request ErrorReply keySlot)
open Cluster Coord

/-- The keys of a keyed data command; one without a routable key is left to its handler. -/
def routedKeys (cmdUpper : Bytes) (request : Request) : List Bytes :=
  match classify cmdUpper with
  | .keyedSingle => request[1]?.toList
  | .keyedMulti =>
    match commandKeys cmdUpper request with
    | .none => []
    | .one key => [key]
    | .many keys => keys
  | .alwaysHome | .wholeKeyspace => []

section Map

variable {ν : Type} [DecidableEq ν]

/-- Whether the connection asked for this command, and which keys are there. -/
structure MigrationCtx where
  asking : Bool
  keyPresent : Bytes → Bool

inductive MigrationDecision (ν : Type) where
  | serve
  | ask (dest : ν)
  | tryAgain

/-- A slot that is on its way overrides ownership: the owner serves the keys it still has, the
destination those it is asked for. -/
def migrationDecision (self : ν) (map : SlotMap ν) (slot : ℕ) (keys : List Bytes)
    (ctx : MigrationCtx) : Option (MigrationDecision ν) :=
  match map.migration slot with
  | .migrating dest =>
    if map.owns self slot then
      let anyPresent := keys.any ctx.keyPresent
      let anyAbsent := keys.any (!ctx.keyPresent ·)
      if anyPresent && anyAbsent then some .tryAgain
      else if anyAbsent then some (.ask dest)
      else some .serve
    else none
  | .importing _ => if !map.owns self slot && ctx.asking then some .serve else none
  | .none => none

def MigrationDecision.intoReply (endpoint : ν → Bytes) (slot : ℕ) : MigrationDecision ν → Option ErrorReply
  | .serve => none
  | .ask dest => some (.ask slot (endpoint dest))
  | .tryAgain => some .tryagain

/-- A slot without an owner has nowhere to send the client. -/
def movedIfUnowned (endpoint : ν → Bytes) (self : ν) (map : SlotMap ν) (slot : ℕ)
    (replicaServes : Bool) : Option ErrorReply :=
  if map.owns self slot then none
  else if replicaServes && map.isReplicaOfSelf self slot then none
  else (map.movedTarget slot).map fun owner => .moved slot (endpoint owner)

/-- Keys of several slots are refused before anyone asks who owns them. -/
def redirectForKeys (endpoint : ν → Bytes) (self : ν) (map : SlotMap ν) (keys : List Bytes)
    (replicaServes : Bool) (migration : Option MigrationCtx) : Option ErrorReply :=
  match keys with
  | [] => none
  | first :: rest =>
    let slot := keySlot first
    if rest.any (keySlot · ≠ slot) then some .crossslot
    else
      match migration.bind (migrationDecision self map slot keys) with
      | some decision => decision.intoReply endpoint slot
      | none => movedIfUnowned endpoint self map slot replicaServes

/-- A replica serves reads of a connection that allows it, as long as it keeps up. -/
def clusterRedirect (endpoint : ν → Bytes) (self : ν) (map : SlotMap ν) (cmdUpper : Bytes)
    (request : Request) (readonly replicaInSync : Bool) (ctx : MigrationCtx) :
    Option ErrorReply :=
  redirectForKeys endpoint self map (routedKeys cmdUpper request)
    (readonly && replicaInSync && !isWrite cmdUpper) (some ctx)

/-- The node is the one to run a command on a slot: it owns the slot, or imports it and was asked. -/
def Serves (self : ν) (map : SlotMap ν) (asking : Bool) (slot : ℕ) : Prop :=
  map.owns self slot = true ∨ (map.isImporting slot = true ∧ asking = true)

variable {self : ν} {map : SlotMap ν} {keys : List Bytes} {ctx : MigrationCtx}
  {endpoint : ν → Bytes} {key : Bytes}

private theorem migrationDecision_serve (decided : migrationDecision self map slot keys ctx = some .serve) :
    Serves self map ctx.asking slot := by
  unfold migrationDecision at decided
  split at decided
  next dest tagged =>
    split_ifs at decided with owned
    exact .inl owned
  next src tagged =>
    split_ifs at decided with asked
    refine .inr ⟨?_, (Bool.and_eq_true _ _ ▸ asked).2⟩
    simp [SlotMap.isImporting, tagged]
  next => cases decided

private theorem keySlot_eq_of_redirectForKeys
    (passed : redirectForKeys endpoint self map keys replicaServes migration = none)
    (named : key ∈ keys) (also : other ∈ keys) : keySlot key = keySlot other := by
  unfold redirectForKeys at passed
  split at passed
  next => cases named
  next first rest =>
    dsimp only at passed
    split_ifs at passed with spread
    have same : ∀ key ∈ first :: rest, keySlot key = keySlot first := by
      intro key named
      rcases List.mem_cons.mp named with rfl | later
      · rfl
      · by_contra other
        exact spread (List.any_eq_true.mpr ⟨key, later, by simpa using other⟩)
    exact (same key named).trans (same other also).symm

/-- The redirect lets a write through only where the node serves the slot, unless nobody owns it. -/
theorem serves_of_redirectForKeys
    (passed : redirectForKeys endpoint self map keys false (some ctx) = none) (named : key ∈ keys)
    (assigned : (map.owner (keySlot key)).isSome) : Serves self map ctx.asking (keySlot key) := by
  cases keys with
  | nil => cases named
  | cons first rest =>
    have same := keySlot_eq_of_redirectForKeys passed named List.mem_cons_self
    rw [same] at assigned ⊢
    unfold redirectForKeys at passed
    dsimp only at passed
    split_ifs at passed with spread
    split at passed
    next decision decided =>
      cases decision with
      | serve => exact migrationDecision_serve decided
      | ask dest => cases passed
      | tryAgain => cases passed
    next =>
      unfold movedIfUnowned at passed
      rw [Bool.false_and, if_neg Bool.false_ne_true] at passed
      split_ifs at passed with owned
      · exact .inl owned
      have unowned : map.owner (keySlot first) = none := Option.map_eq_none_iff.mp passed
      rw [unowned] at assigned
      cases assigned

end Map

def writeGuardrailDecision (minRequired inSyncCount : ℕ) : Option ErrorReply :=
  if inSyncCount < minRequired then some .noReplicas else none

/-- Only a write that names a key is held against the number of replicas in sync. -/
def writeGuardrail (minRequired inSyncCount : ℕ) (cmdUpper : Bytes) (request : Request) :
    Option ErrorReply :=
  if !isWrite cmdUpper then none
  else if (routedKeys cmdUpper request).isEmpty then none
  else writeGuardrailDecision minRequired inSyncCount

theorem le_of_writeGuardrail (passed : writeGuardrail minRequired inSyncCount cmdUpper request = none)
    (write : isWrite cmdUpper = true) (named : key ∈ routedKeys cmdUpper request) :
    minRequired ≤ inSyncCount := by
  unfold writeGuardrail writeGuardrailDecision at passed
  split_ifs at passed with read keyless few
  · rw [write] at read
    cases read
  · rw [List.isEmpty_iff.mp keyless] at named
    cases named
  · exact not_lt.mp few

end Serve

end IronCache
