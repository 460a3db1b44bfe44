import Mathlib.Data.List.Basic

/-!
# Programs over a family of servers

A program asks some of the servers and goes on with their answers. Programs that ask different
servers commute.
-/

namespace IronCache.Scatter

open Function (update update_of_ne update_self)
open List

/-- Each turn sends queries out and goes on with the answers, in the order of the queries. -/
inductive Program (ι Q A R : Type) where
  | done (result : R)
  | scatter (queries : List (ι × Q)) (next : List A → Program ι Q A R)

variable {ι Q A R S : Type}

/-- The servers a program may ask, whatever it is answered. -/
inductive Program.Asks : Program ι Q A R → ι → Prop where
  | now {queries : List (ι × Q)} {next : List A → Program ι Q A R} {server : ι} {query : Q}
      (listed : (server, query) ∈ queries) : Asks (.scatter queries next) server
  | later {queries : List (ι × Q)} {next : List A → Program ι Q A R} {server : ι}
      (answers : List A) (asks : Asks (next answers) server) : Asks (.scatter queries next) server

/-- One program and then another on its result. -/
def Program.bind {R' : Type} (program : Program ι Q A R) (next : R → Program ι Q A R') :
    Program ι Q A R' :=
  match program with
  | .done result => next result
  | .scatter queries more => .scatter queries fun answers => (more answers).bind next

instance : Monad (Program ι Q A) where
  pure := .done
  bind := .bind

variable [DecidableEq ι]

def serveAll (serve : S → Q → A × S) : List (ι × Q) → (ι → S) → List A × (ι → S)
  | [], family => ([], family)
  | (server, query) :: rest, family =>
    let (answer, state) := serve (family server) query
    let (answers, family) := serveAll serve rest (update family server state)
    (answer :: answers, family)

def Program.run (serve : S → Q → A × S) : Program ι Q A R → (ι → S) → R × (ι → S)
  | .done result, family => (result, family)
  | .scatter queries next, family =>
    let (answers, family) := serveAll serve queries family
    (next answers).run serve family

variable {serve : S → Q → A × S}

theorem serveAll_append (first second : List (ι × Q)) (family : ι → S) :
    serveAll serve (first ++ second) family = ((serveAll serve first family).1 ++
          (serveAll serve second (serveAll serve first family).2).1,
        (serveAll serve second (serveAll serve first family).2).2) := by
  induction first generalizing family with
  | nil => rfl
  | cons query first ih =>
    simp only [cons_append, serveAll, ih]

theorem length_serveAll (queries : List (ι × Q)) (family : ι → S) :
    (serveAll serve queries family).1.length = queries.length := by
  induction queries generalizing family with
  | nil => rfl
  | cons query queries ih => exact congrArg (· + 1) (ih _)

variable {queries : List (ι × Q)} {server : ι} {left right : ι → S} {program : Program ι Q A R}
  {servers : List ι}

theorem serveAll_unasked (unasked : ∀ query, (server, query) ∉ queries) (family : ι → S) :
    (serveAll serve queries family).2 server = family server := by
  induction queries generalizing family with
  | nil => rfl
  | cons first queries ih =>
    have other : server ≠ first.1 := by
      rintro rfl
      exact unasked first.2 (mem_cons_self ..)
    refine (ih (fun query member => unasked query (mem_cons_of_mem _ member)) _).trans ?_
    exact update_of_ne other _ _

/-- What queries are answered, and what becomes of a server, depends on the servers asked alone. -/
theorem serveAll_congr (agree : ∀ server query, (server, query) ∈ queries → left server = right server) :
    (serveAll serve queries left).1 = (serveAll serve queries right).1 ∧
      ∀ server, left server = right server →
        (serveAll serve queries left).2 server = (serveAll serve queries right).2 server := by
  induction queries generalizing left right with
  | nil => exact ⟨rfl, fun server same => same⟩
  | cons first queries ih =>
    have here := agree first.1 first.2 (mem_cons_self ..)
    have updated : ∀ server, left server = right server →
        update left first.1 (serve (left first.1) first.2).2 server =
          update right first.1 (serve (right first.1) first.2).2 server := by
      intro server same
      by_cases asked : server = first.1
      · subst asked
        rw [update_self, update_self, here]
      · rw [update_of_ne asked, update_of_ne asked, same]
    obtain ⟨answers, states⟩ := ih fun server query member =>
      updated server (agree server query (mem_cons_of_mem _ member))
    refine ⟨?_, fun server same => states server (updated server same)⟩
    simp only [serveAll]
    rw [answers, here]

theorem Program.run_bind {R' : Type} (program : Program ι Q A R) (next : R → Program ι Q A R')
    (family : ι → S) : (program >>= next).run serve family =
      (next (program.run serve family).1).run serve (program.run serve family).2 := by
  induction program generalizing family with
  | done result => rfl
  | scatter queries more ih => exact ih _ _

theorem Program.run_unasked (unasked : ¬program.Asks server) (family : ι → S) :
    (program.run serve family).2 server = family server := by
  induction program generalizing family with
  | done result => rfl
  | scatter queries next ih =>
    refine (ih _ (fun asks => unasked (.later _ asks)) _).trans ?_
    exact serveAll_unasked (fun query member => unasked (.now member)) family

theorem Program.run_congr (agree : ∀ server, program.Asks server → left server = right server) :
    (program.run serve left).1 = (program.run serve right).1 ∧
      ∀ server, left server = right server →
        (program.run serve left).2 server = (program.run serve right).2 server := by
  induction program generalizing left right with
  | done result => exact ⟨rfl, fun server same => same⟩
  | scatter queries next ih =>
    obtain ⟨answers, states⟩ := @serveAll_congr ι Q A S _ serve queries left right
      fun server query member => agree server (.now member)
    have later := @ih (serveAll serve queries left).1 (serveAll serve queries left).2
      (serveAll serve queries right).2 fun server asks => states server (agree server (.later _ asks))
    simp only [run, ← answers]
    exact ⟨later.1, fun server same => later.2 server (states server same)⟩

/-- Programs that ask different servers commute. -/
theorem Program.run_comm {R' : Type} {first : Program ι Q A R} {second : Program ι Q A R'}
    (apart : ∀ server, first.Asks server → ¬second.Asks server) (family : ι → S) :
    (first.run serve (second.run serve family).2).1 = (first.run serve family).1 ∧
      (second.run serve (first.run serve family).2).1 = (second.run serve family).1 ∧
      (first.run serve (second.run serve family).2).2 = (second.run serve (first.run serve family).2).2 := by
  have before : ∀ server, first.Asks server → (second.run serve family).2 server = family server :=
    fun server asks => run_unasked (apart server asks) family
  have after : ∀ server, second.Asks server → (first.run serve family).2 server = family server :=
    fun server asks => run_unasked (fun own => apart server own asks) family
  refine ⟨(run_congr before).1, (run_congr after).1, funext fun server => ?_⟩
  by_cases own : first.Asks server
  · rw [(run_congr before).2 server (before server own), run_unasked (apart server own)]
  by_cases its : second.Asks server
  · rw [(run_congr after).2 server (after server its), run_unasked own]
  · rw [run_unasked own, run_unasked its, run_unasked its, run_unasked own]

def serveBatch (serve : S → Q → A × S) : List Q → S → List A × S
  | [], state => ([], state)
  | query :: rest, state =>
    let (answer, state) := serve state query
    let (answers, state) := serveBatch serve rest state
    (answer :: answers, state)

def bucket (server : ι) (queries : List (ι × Q)) : List Q :=
  (queries.filter fun query => query.1 = server).map (·.2)

/-- The server of each query and the place of the query in its bucket. -/
def slotsFrom (seen : List (ι × Q)) : List (ι × Q) → List (ι × ℕ)
  | [] => []
  | query :: rest =>
    (query.1, (bucket query.1 seen).length) :: slotsFrom (seen ++ [query]) rest

/-- The buckets of some servers, one batch each; the answers are kept by server. -/
def serveBuckets (serve : S → Q → A × S) (queries : List (ι × Q)) : List ι → (ι → S) → (ι → List A) × (ι → S)
  | [], family => (fun _ => [], family)
  | server :: rest, family =>
    let (answers, state) := serveBatch serve (bucket server queries) (family server)
    let (results, family) := serveBuckets serve queries rest (update family server state)
    (update results server answers, family)

theorem bucket_cons_self : bucket server ((server, query) :: queries) = query :: bucket server queries := by
  simp [bucket]

theorem bucket_cons_of_ne (apart : other ≠ server) (queries : List (ι × Q)) :
    bucket server ((other, query) :: queries) = bucket server queries := by
  simp [bucket, apart]

theorem bucket_append : bucket server (first ++ second) = bucket server first ++ bucket server second := by
  simp [bucket]

/-- What becomes of a server is what its own queries make of it. -/
theorem serveAll_at (family : ι → S) : (serveAll serve queries family).2 server =
      (serveBatch serve (bucket server queries) (family server)).2 := by
  induction queries generalizing family with
  | nil => rfl
  | cons query queries ih =>
    obtain ⟨asked, query⟩ := query
    refine (ih _).trans ?_
    by_cases same : asked = server
    · subst same
      rw [bucket_cons_self, update_self]
      rfl
    · rw [bucket_cons_of_ne same, update_of_ne (Ne.symm same)]

/-- The answers to queries, looked up by slot in what the buckets were answered. -/
theorem serveAll_slots {seen : List (ι × Q)} {family : ι → S} {results : ι → List A}
    (answered : ∀ server,
      (results server).drop (bucket server seen).length =
      (serveBatch serve (bucket server queries) (family server)).1) :
    (slotsFrom seen queries).map (fun slot => (results slot.1)[slot.2]?) =
      (serveAll serve queries family).1.map some := by
  induction queries generalizing seen family with
  | nil => rfl
  | cons query queries ih =>
    obtain ⟨asked, query⟩ := query
    have here := answered asked
    rw [bucket_cons_self] at here
    have first : (results asked)[(bucket asked seen).length]? = some (serve (family asked) query).1 := by
      rw [← head?_drop, here]
      rfl
    have later := @ih (seen ++ [(asked, query)])
      (update family asked (serve (family asked) query).2) fun server => by
        rw [bucket_append]
        by_cases same : asked = server
        · subst same
          rw [update_self, length_append, ← drop_drop, here, bucket_cons_self]
          rfl
        rw [update_of_ne (Ne.symm same), bucket_cons_of_ne same,
          ← bucket_cons_of_ne same queries, ← answered server]
        simp [bucket]
    simp only [slotsFrom, serveAll, map_cons, first, later]

theorem serveBuckets_at (distinct : servers.Nodup) (family : ι → S) :
    (server ∈ servers → (serveBuckets serve queries servers family).1 server =
        (serveBatch serve (bucket server queries) (family server)).1 ∧
      (serveBuckets serve queries servers family).2 server =
        (serveBatch serve (bucket server queries) (family server)).2) ∧
    (server ∉ servers → (serveBuckets serve queries servers family).1 server = [] ∧
      (serveBuckets serve queries servers family).2 server = family server) := by
  induction servers generalizing family with
  | nil => exact ⟨fun member => absurd member (not_mem_nil), fun _ => ⟨rfl, rfl⟩⟩
  | cons first servers ih =>
    obtain ⟨fresh, distinct⟩ := nodup_cons.1 distinct
    obtain ⟨inside, outside⟩ := ih distinct
      (update family first (serveBatch serve (bucket first queries) (family first)).2)
    simp only [serveBuckets]
    by_cases same : server = first
    · subst same
      rw [update_self] at outside
      refine ⟨fun _ => ⟨update_self .., (outside fresh).2⟩, fun missing => ?_⟩
      exact absurd (mem_cons_self ..) missing
    rw [update_of_ne same] at inside outside
    rw [update_of_ne same]
    refine ⟨fun member => inside ((mem_cons.1 member).resolve_left same), fun missing => ?_⟩
    exact outside fun member => missing (mem_cons_of_mem _ member)

/-- Queries sent in one batch for each server are answered as they are one by one. -/
theorem serveBuckets_eq (distinct : servers.Nodup) (covered : ∀ query ∈ queries, query.1 ∈ servers)
    (family : ι → S) : (slotsFrom [] queries).map
        (fun slot => ((serveBuckets serve queries servers family).1 slot.1)[slot.2]?) =
      (serveAll serve queries family).1.map some ∧
    (serveBuckets serve queries servers family).2 = (serveAll serve queries family).2 := by
  have unasked : ∀ server ∉ servers, bucket server queries = [] := by
    intro server missing
    simp only [bucket, map_eq_nil_iff, filter_eq_nil_iff, decide_eq_true_eq]
    rintro query member rfl
    exact missing (covered query member)
  have batches : ∀ server, (serveBuckets serve queries servers family).1 server =
        (serveBatch serve (bucket server queries) (family server)).1 ∧
      (serveBuckets serve queries servers family).2 server =
        (serveBatch serve (bucket server queries) (family server)).2 := by
    intro server
    by_cases member : server ∈ servers
    · exact (serveBuckets_at distinct family).1 member
    · rw [unasked server member]
      exact (serveBuckets_at distinct family).2 member
  refine ⟨serveAll_slots fun server => (batches server).1, funext fun server => ?_⟩
  rw [(batches server).2, serveAll_at]

end IronCache.Scatter
