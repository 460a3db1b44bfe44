import IronCache.Lib.Bytes

/-!
# The failover fence

How a rolling upgrade promotes a replica (`ironcache/src/cluster_upgrade_driver.rs`). Time passes in
the sleeps alone.
-/

namespace IronCache.Upgrade

structure FreezeCfg where
  pauseWindowMs : ℕ := 30000
  maxDrainPolls : ℕ := 600
  drainPollDelay : ℕ := 100

structure ActuationTarget where
  id : Bytes
  respAddr : Bytes

structure SlaveEntry where
  host : Bytes
  port : ℕ
  lag : ℕ

def parseU16 : Bytes → Option ℕ
  | [] | [43] => none
  | 43 :: digits | digits => Decimal.parseFrom (2 ^ 16) 0 digits

def splitHostPort (addr : Bytes) : Option (Bytes × ℕ) :=
  match addr.reverse.span (· ≠ 58) with
  | (port, _ :: host) => (parseU16 port.reverse).map (host.reverse, ·)
  | (_, []) => none

def slaveLagFor (slaves : List SlaveEntry) (addr : Bytes) : Option ℕ :=
  (splitHostPort addr).bind fun (host, port) =>
    (slaves.find? fun slave => slave.host = host ∧ slave.port = port).map SlaveEntry.lag

inductive UpgradeError where
  | noCandidate
  | oldPrimaryUnknown
  | unknownNode (id : Bytes)
  | pause
  | observe
  | drainTimeout (candidate : Bytes) (polls : ℕ)
  | failover

/-- What became of `CLIENT PAUSE`: it may take hold although its answer is lost. -/
inductive Freeze where
  | frozen
  | refused
  | unheard
deriving DecidableEq

/-- How the nodes answer: the polls of the old primary by their number, and whether the demotion is
seen at each look after the failover. -/
structure Answers where
  freeze : Freeze := .frozen
  observe : ℕ → Option (List SlaveEntry)
  unfreeze : Bool := true
  failover : Bool := true
  demoted : ℕ → Bool := fun _ => true

/-- The clock, the end of the pause, and the lags reported so far with their times. -/
structure Fence where
  now : ℕ := 0
  pausedUntil : Option ℕ := none
  reports : List (ℕ × Option ℕ) := []

namespace Fence

def paused (fence : Fence) : Bool := fence.pausedUntil.any (fence.now < ·)

def sleep (duration : ℕ) (fence : Fence) : Fence := { fence with now := fence.now + duration }

def unfreeze (answers : Answers) (fence : Fence) : Fence :=
  if answers.unfreeze then { fence with pausedUntil := none } else fence

def report (lag : Option ℕ) (fence : Fence) : Fence :=
  { fence with reports := fence.reports ++ [(fence.now, lag)] }

end Fence

variable (cfg : FreezeCfg) (answers : Answers)

/-- Polls until the candidate has no lag; the counts are the polls left and those made. -/
def drainCandidateToZero (candidate : ActuationTarget) : ℕ → ℕ → Fence → Except UpgradeError Unit × Fence
  | 0, _, fence => (.error (.drainTimeout candidate.id cfg.maxDrainPolls), fence)
  | left + 1, poll, fence =>
    match answers.observe poll with
    | none => (.error .observe, fence)
    | some slaves =>
      let lag := slaveLagFor slaves candidate.respAddr
      let fence := fence.report lag
      if lag = some 0 then (.ok (), fence)
      else drainCandidateToZero candidate left (poll + 1) (fence.sleep cfg.drainPollDelay)

def awaitDemotion : ℕ → ℕ → Fence → Fence
  | 0, _, fence => fence
  | left + 1, look, fence =>
    if answers.demoted look then fence
    else awaitDemotion left (look + 1) (fence.sleep cfg.drainPollDelay)

/-- What a promotion leaves: its result, the fence as it was when the failover was sent, and the
fence at the end. -/
structure Promotion where
  result : Except UpgradeError Unit
  sent : Option Fence := none
  fence : Fence := {}

/-- The old primary and the candidate, which the view of this tick selects. -/
def promotionTargets (inventory : Bytes → Option ActuationTarget) (candidateId oldPrimaryId : Option Bytes) :
    Except UpgradeError (ActuationTarget × ActuationTarget) :=
  match candidateId, oldPrimaryId with
  | none, _ => .error .noCandidate
  | some _, none => .error .oldPrimaryUnknown
  | some candidateId, some oldPrimaryId =>
    match inventory oldPrimaryId, inventory candidateId with
    | none, _ => .error (.unknownNode oldPrimaryId)
    | some _, none => .error (.unknownNode candidateId)
    | some oldPrimary, some candidate => .ok (oldPrimary, candidate)

def promoteCandidate (inventory : Bytes → Option ActuationTarget)
    (candidateId oldPrimaryId : Option Bytes) : Promotion :=
  match promotionTargets inventory candidateId oldPrimaryId with
  | .error error => { result := .error error }
  | .ok (_, candidate) =>
    let frozen : Fence := { pausedUntil := some cfg.pauseWindowMs }
    match answers.freeze with
    | .refused => { result := .error .pause }
    | .unheard => { result := .error .pause, fence := frozen }
    | .frozen =>
      match drainCandidateToZero cfg answers candidate cfg.maxDrainPolls 0 frozen with
      | (.error error, fence) => { result := .error error, fence := fence.unfreeze answers }
      | (.ok _, fence) =>
        if answers.failover then
          { result := .ok ()
            sent := some fence
            fence := awaitDemotion cfg answers cfg.maxDrainPolls 0 (fence.unfreeze answers) }
        else { result := .error .failover, sent := some fence, fence := fence.unfreeze answers }

/-- The failover is sent during the pause, after the old primary reported lag 0 within it, and a
promotion that fails before leaves no pause behind. -/
def Promotion.Fenced (promotion : Promotion) : Prop :=
  (∀ fence, promotion.sent = some fence → fence.paused = true ∧
    ∃ time, (time, some 0) ∈ fence.reports ∧ { fence with now := time }.paused = true) ∧
  (promotion.sent = none → ∀ error, promotion.result = .error error → promotion.fence.paused = false)

/-- The first poll that fails or reports lag 0. -/
def EndsAt (candidate : ActuationTarget) (poll : ℕ) : Prop :=
  (∀ slaves ∈ answers.observe poll, slaveLagFor slaves candidate.respAddr = some 0) ∧
  ∀ earlier < poll, ∃ slaves ∈ answers.observe earlier, slaveLagFor slaves candidate.respAddr ≠ some 0

/-- A pause that was taken for refused did not take hold; the poll that reports lag 0 comes within
the window, and after one that fails within it the pause is taken back. -/
def InTime (candidate : ActuationTarget) : Prop :=
  answers.freeze ≠ .unheard ∧ (answers.freeze = .frozen → ∀ poll < cfg.maxDrainPolls,
    EndsAt answers candidate poll →
      if (answers.observe poll).isSome then poll * cfg.drainPollDelay < cfg.pauseWindowMs
      else poll * cfg.drainPollDelay < cfg.pauseWindowMs → answers.unfreeze = true)

variable {cfg answers} {candidate : ActuationTarget}

/-- A drain runs out of polls, or ends at the first poll that fails or reports lag 0. -/
theorem drain_spec {left poll : ℕ} {fence : Fence} (earlier : ∀ made < poll, ∃ slaves ∈ answers.observe made,
      slaveLagFor slaves candidate.respAddr ≠ some 0)
    (clock : fence.now = poll * cfg.drainPollDelay) :
    ∃ last after, after.pausedUntil = fence.pausedUntil ∧ after.now = last * cfg.drainPollDelay ∧
      ((∃ error, drainCandidateToZero cfg answers candidate left poll fence = (.error error, after) ∧
          last = poll + left ∧ ∀ made < last, ∃ slaves ∈ answers.observe made,
            slaveLagFor slaves candidate.respAddr ≠ some 0) ∨
        last < poll + left ∧ EndsAt answers candidate last ∧ ((∃ error, answers.observe last = none ∧
              drainCandidateToZero cfg answers candidate left poll fence = (.error error, after)) ∨
            (answers.observe last).isSome ∧ (after.now, some 0) ∈ after.reports ∧
              drainCandidateToZero cfg answers candidate left poll fence = (.ok (), after))) := by
  induction left generalizing poll fence with
  | zero => exact ⟨poll, fence, rfl, clock, .inl ⟨_, rfl, rfl, earlier⟩⟩
  | succ left ih =>
    unfold drainCandidateToZero
    cases seen : answers.observe poll with
    | none =>
      refine ⟨poll, fence, rfl, clock, .inr ⟨by omega, ⟨?_, earlier⟩, .inl ⟨_, seen, rfl⟩⟩⟩
      rw [seen]
      rintro slaves ⟨⟩
    | some slaves =>
      dsimp only
      split
      · rename_i drained
        refine ⟨poll, fence.report _, rfl, clock, .inr ⟨by omega, ⟨?_, earlier⟩, .inr ⟨?_, ?_, rfl⟩⟩⟩
        · rw [seen]
          rintro _ ⟨⟩
          exact drained
        · rw [seen]
          rfl
        · rw [drained]
          exact List.mem_append_right _ List.mem_cons_self
      rename_i lags
      have further := @ih (poll + 1)
        ((fence.report (slaveLagFor slaves candidate.respAddr)).sleep cfg.drainPollDelay) ?_ ?_
      · rw [Nat.add_right_comm, Nat.add_assoc] at further
        exact further
      · intro made less
        rcases Nat.lt_succ_iff_lt_or_eq.mp less with before | rfl
        · exact earlier made before
        · exact ⟨slaves, seen, lags⟩
      · change fence.now + _ = _
        rw [clock, Nat.succ_mul]

theorem EndsAt.unique {poll other : ℕ} (ends : EndsAt answers candidate poll)
    (also : EndsAt answers candidate other) : poll = other := by
  rcases Nat.lt_trichotomy poll other with before | same | after
  · obtain ⟨slaves, seen, lags⟩ := also.2 poll before
    exact absurd (ends.1 slaves seen) lags
  · exact same
  · obtain ⟨slaves, seen, lags⟩ := ends.2 other after
    exact absurd (also.1 slaves seen) lags

theorem fenced_of_unpaused {promotion : Promotion} (unsent : promotion.sent = none)
    (free : promotion.fence.paused = false) : promotion.Fenced := by
  refine ⟨fun fence sent => ?_, fun _ _ _ => free⟩
  rw [unsent] at sent
  cases sent

private theorem paused_unfreeze {fence : Fence} {last : ℕ} (window : fence.pausedUntil = some 30000)
    (clock : fence.now = last * 100) :
    (fence.unfreeze answers).paused = false ↔ (last * 100 < 30000 → answers.unfreeze = true) := by
  unfold Fence.unfreeze
  cases answers.unfreeze with
  | true => simp [Fence.paused]
  | false => simp [Fence.paused, window, clock]

theorem fenced_known
    (known : promotionTargets inventory candidateId oldPrimaryId = .ok (oldPrimary, candidate)) :
    (promoteCandidate {} answers inventory candidateId oldPrimaryId).Fenced ↔
      InTime {} answers candidate := by
  unfold promoteCandidate InTime
  rw [known]
  dsimp only
  cases answers.freeze with
  | refused => exact iff_of_true (fenced_of_unpaused rfl rfl) ⟨by decide, fun none => by cases none⟩
  | unheard =>
    refine iff_of_false (fun fenced => ?_) fun timely => timely.1 rfl
    cases fenced.2 rfl _ rfl
  | frozen =>
    obtain ⟨last, after, window, clock, outcome⟩ := @drain_spec {} answers candidate 600 0
      { pausedUntil := some 30000 } (fun _ less => absurd less (Nat.not_lt_zero _)) rfl
    simp only [ne_eq, reduceCtorEq, not_false_eq_true, forall_const, true_and]
    rcases outcome with ⟨error, ran, rfl, lags⟩ | ⟨within, ends, outcome⟩
    · rw [ran]
      refine iff_of_true (fenced_of_unpaused rfl ?_) fun poll less ends => ?_
      · exact (paused_unfreeze window clock).mpr (by omega)
      · obtain ⟨slaves, seen, lag⟩ := lags poll (by omega)
        exact absurd (ends.1 slaves seen) lag
    have only : (∀ poll < 600, EndsAt answers candidate poll →
        if (answers.observe poll).isSome then poll * 100 < 30000
        else poll * 100 < 30000 → answers.unfreeze = true) ↔
        if (answers.observe last).isSome then last * 100 < 30000
        else last * 100 < 30000 → answers.unfreeze = true :=
      ⟨fun all => all last (by omega) ends, fun one poll _ also => also.unique ends ▸ one⟩
    rw [only]
    rcases outcome with ⟨error, failed, ran⟩ | ⟨seen, reported, ran⟩
    · rw [ran, failed, if_neg (by simp), ← paused_unfreeze window clock]
      exact ⟨fun fenced => fenced.2 rfl _ rfl, fun free => fenced_of_unpaused rfl free⟩
    have paused : after.paused = true ↔ last * 100 < 30000 := by
      simp [Fence.paused, window, clock]
    rw [ran, if_pos seen, ← paused]
    have sends : ∀ result fence, (⟨result, some after, fence⟩ : Promotion).Fenced ↔ after.paused = true := by
      refine fun result fence => ⟨fun fenced => (fenced.1 after rfl).1, fun held => ⟨?_, ?_⟩⟩
      · rintro _ ⟨⟩
        exact ⟨held, after.now, reported, held⟩
      · rintro ⟨⟩
    dsimp only
    split
    · exact sends _ _
    · exact sends _ _

/-- A promotion is fenced exactly if the candidate drains in time, or a node is unknown. -/
theorem fenced_iff (inventory : Bytes → Option ActuationTarget) (candidateId oldPrimaryId : Option Bytes) :
    (promoteCandidate {} answers inventory candidateId oldPrimaryId).Fenced ↔
      ∀ oldPrimary candidate,
        promotionTargets inventory candidateId oldPrimaryId = .ok (oldPrimary, candidate) →
          InTime {} answers candidate := by
  cases known : promotionTargets inventory candidateId oldPrimaryId with
  | error error =>
    refine iff_of_true ?_ fun _ _ found => by cases found
    unfold promoteCandidate
    rw [known]
    exact fenced_of_unpaused rfl rfl
  | ok targets =>
    rw [fenced_known known]
    refine ⟨fun timely oldPrimary candidate found => ?_, fun timely => timely _ _ rfl⟩
    cases found
    exact timely

def level (behind : ℕ) : List SlaveEntry := [⟨[104], 1, behind⟩]

/-- The old primary reports the candidate behind for some polls, and then level with it. -/
def lateAnswers (polls : ℕ) : Answers where
  observe := fun poll => some (level (if poll < polls then 1 else 0))

/-- A candidate that catches up at the twentieth poll. -/
theorem fenced_prompt : (promoteCandidate {} (lateAnswers 20) (fun id => some ⟨id, [104, 58, 49]⟩)
    (some [1]) (some [0])).Fenced := by
  refine (fenced_iff _ _ _).mpr ?_
  rintro _ _ ⟨⟩
  refine ⟨by decide, fun _ poll _ ends => ?_⟩
  have prompt : poll ≤ 20 := by
    by_contra later
    obtain ⟨_, ⟨⟩, lags⟩ := ends.2 20 (by omega)
    exact lags rfl
  show poll * 100 < 30000
  omega

/-- The default window is half of what the default polls may take. -/
theorem not_fenced_late : ¬ (promoteCandidate {} (lateAnswers 400) (fun id => some ⟨id, [104, 58, 49]⟩)
    (some [1]) (some [0])).Fenced := by
  have lag (behind : ℕ) : slaveLagFor (level behind) [104, 58, 49] = some behind := rfl
  have known : promotionTargets (fun id => some ⟨id, [104, 58, 49]⟩) (some [1]) (some [0]) =
      .ok (⟨[0], [104, 58, 49]⟩, ⟨[1], [104, 58, 49]⟩) := rfl
  rw [fenced_known known]
  intro timely
  refine absurd (timely.2 rfl 400 (by decide) ⟨?_, fun poll less => ?_⟩) (by decide)
  · rintro _ ⟨⟩
    exact lag 0
  · refine ⟨_, rfl, ?_⟩
    rw [if_pos less, lag]
    decide

end IronCache.Upgrade
