import IronCache.Repl.Control

/-!
# What a promotion rests on

The owner that a node was last in contact with, and what the node knows when it proposes its
promotion.
-/

namespace IronCache.Repl

open Store Cluster Protocol

/-- The owner of the last attach and what happened on its link. -/
structure Contact (ν : Type) where
  owner : ν
  link : Link

/-- The last contact and the owners that a full sync was completed from. -/
structure History (ν : Type) where
  contact : Option (Contact ν) := none
  synced : List ν := []

variable {E ν τ : Type}

def seen (observed : ℕ) (frame : Frame) : ℕ :=
  match Node.streamFrameOffset frame with
  | some offset => max observed offset
  | none => observed

/-- What a step means, told by where the control task was and is. -/
def History.follow (history : History ν) (before after : Phase ν τ) (event : NodeEvent ν τ) :
    History ν :=
  match before, after, event with
  | .dialing owner, .tailing _ _ start, .synced _ _ _ =>
    ⟨some ⟨owner, ⟨start, start⟩⟩, owner :: history.synced⟩
  | .dialing owner, .tailing _ _ start, _ => ⟨some ⟨owner, ⟨start, start⟩⟩, history.synced⟩
  | .tailing _ _ _, .tailing _ _ applied, .frame frame _ =>
    { history with
      contact := history.contact.map fun contact =>
        { contact with
          link := ⟨max contact.link.applied applied, seen contact.link.observed frame⟩ } }
  | .tailing _ _ _, .returned _ _, .frame frame _ =>
    { history with
      contact := history.contact.map fun contact =>
        { contact with link := { contact.link with
            observed := seen contact.link.observed frame } } }
  | _, _, _ => history

structure Watched (E ν τ : Type) where
  node : Node E ν τ
  history : History ν := {}

namespace Watched

variable [EvictionPolicy E] [DecidableEq ν] {params : NodeParams E ν τ}

def step (params : NodeParams E ν τ) (watched : Watched E ν τ) (event : NodeEvent ν τ) :
    Watched E ν τ :=
  let next := watched.node.step params event
  ⟨next, watched.history.follow watched.node.phase next.phase event⟩

/-- The node has completed a full sync from the owner of a slot, and it was in sync with that owner
when it was last in contact with it. -/
def Mirrored (params : NodeParams E ν τ) (watched : Watched E ν τ) (slot : ℕ) : Prop :=
  ∃ contact, watched.history.contact = some contact ∧
    watched.node.map.owner slot = some contact.owner ∧ contact.owner ∈ watched.history.synced ∧
      contact.link.observed ≤ contact.link.applied + params.replicaMaxLag

/-- The condition: no attach starts below the offset that the status cell shows, and when the
outage has lasted or a failover is asked for, all slots that the node replicates belong to the owner
that it was last in contact with. -/
def Allowed (params : NodeParams E ν τ) (watched : Watched E ν τ) : NodeEvent ν τ → Prop
  | .synced _ _ endOffset => watched.node.status.nodeOffset ≤ endOffset
  | .resumed => watched.node.status.nodeOffset ≤ watched.node.resume.offset
  | .ended now => params.failoverTimeout ≤ now - watched.node.outageStart now →
      ∀ contact ∈ watched.history.contact, ∀ slot < clusterSlots,
        watched.node.map.isReplicaOfSelf params.self slot = true →
          watched.node.map.owner slot = some contact.owner
  | .failover => ∀ contact ∈ watched.history.contact, ∀ slot < clusterSlots,
      watched.node.map.isReplicaOfSelf params.self slot = true →
        watched.node.map.owner slot = some contact.owner
  | _ => True

end Watched

theorem History.follow_same (history : History ν) (phase : Phase ν τ) {event : NodeEvent ν τ}
    (other : ∀ frame now, event ≠ .frame frame now) : history.follow phase phase event = history := by
  cases phase with
  | tailing owner token applied =>
    cases event with
    | frame frame now => exact absurd rfl (other frame now)
    | _ => rfl
  | _ => rfl

theorem History.follow_idle (history : History ν) (phase : Phase ν τ) (event : NodeEvent ν τ) :
    history.follow phase .idle event = history := by
  cases phase <;> rfl

namespace Watched

variable {params : NodeParams E ν τ}

def link (watched : Watched E ν τ) : Option Link :=
  watched.node.phase.owner?.bind fun _ => watched.history.contact.map (·.link)

structure Kept (params : NodeParams E ν τ) (watched : Watched E ν τ) : Prop where
  up : watched.node.status.masterLink = .up ↔ watched.node.phase.owner?.isSome
  backed : (⟨watched.node.status, watched.link⟩ : Reported).Backed
  contact : ∀ owner, watched.node.phase.owner? = some owner →
    ∃ link, watched.history.contact = some ⟨owner, link⟩ ∧ owner ∈ watched.history.synced
  verdict : watched.node.phase.owner? = none → watched.node.lastContactInSync = true →
    ∃ contact, watched.history.contact = some contact ∧ contact.owner ∈ watched.history.synced ∧
      contact.link.observed ≤ contact.link.applied + params.replicaMaxLag
  resume : ∀ token, watched.node.resume.token = some token → params.issuer token ∈ watched.history.synced
  resumeAfter : ∀ token, watched.node.resumeAfter.token = some token →
    params.issuer token ∈ watched.history.synced

variable {watched : Watched E ν τ} {event : NodeEvent ν τ}

variable {next node : Node E ν τ} {link : Link} {owner : ℕ → ℕ}

/-- A step of anything but the control task: it may publish to the status cell. -/
theorem Kept.aside (kept : Kept params watched) (phase : next.phase = watched.node.phase)
    (resume : next.resume = watched.node.resume)
    (latched : next.lastContactInSync = watched.node.lastContactInSync)
    (linked : next.status.masterLink = watched.node.status.masterLink)
    (backed : (⟨next.status, watched.link⟩ : Reported).Backed) : Kept params ⟨next, watched.history⟩ where
  up := by
    rw [linked, phase]
    exact kept.up
  backed := by
    have same : link (⟨next, watched.history⟩ : Watched E ν τ) = watched.link := by
      unfold link
      rw [phase]
    rw [same]
    exact backed
  contact := by
    rw [phase]
    exact kept.contact
  verdict := by
    rw [phase, latched]
    exact kept.verdict
  resume := by
    rw [resume]
    exact kept.resume
  resumeAfter := by
    have same : next.resumeAfter = watched.node.resumeAfter := by
      unfold Node.resumeAfter
      rw [phase, resume]
    rw [same]
    exact kept.resumeAfter

/-- An attach that starts no lower than the status cell, to an owner that a sync came from. -/
theorem Kept.attached (kept : Kept params watched) {owner : ν} {token : τ} {start : ℕ}
    (issued : params.issuer token = owner) (above : watched.node.status.nodeOffset ≤ start)
    (store : ShardStore E) {synced : List ν}
    (grown : ∀ node ∈ watched.history.synced, node ∈ synced) (added : owner ∈ synced) :
    Kept params ⟨watched.node.attached params owner (some token) start store,
      ⟨some ⟨owner, ⟨start, start⟩⟩, synced⟩⟩ where
  up := iff_of_true rfl rfl
  backed := by
    intro role up
    exact ⟨⟨start, start⟩, rfl, max_le above le_rfl, le_max_right _ _⟩
  contact := by
    intro other same
    cases same
    exact ⟨_, rfl, added⟩
  verdict := by
    intro none
    cases none
  resume := fun token found => grown _ (kept.resume token found)
  resumeAfter := by
    intro other found
    cases found
    rw [issued]
    exact added

/-- With the link down before and after, the control task may forget what it was to resume from and
what the last verdict was, and nothing else. -/
theorem Kept.between (kept : Kept params watched) (before : watched.node.phase.owner? = none)
    (after : next.phase.owner? = none) (status : next.status = watched.node.status)
    (resume : next.resume = watched.node.resume ∨ next.resume = .fresh)
    (latched : next.lastContactInSync = true → watched.node.lastContactInSync = true) :
    Kept params ⟨next, watched.history⟩ := by
  have tokens : ∀ token, next.resume.token = some token → params.issuer token ∈ watched.history.synced := by
    intro token found
    rcases resume with same | fresh
    · rw [same] at found
      exact kept.resume token found
    · rw [fresh] at found
      cases found
  have unlinked : watched.link = none := by
    unfold link
    rw [before]
    rfl
  refine ⟨?_, ?_, ?_, fun _ agreed => kept.verdict before (latched agreed), tokens, ?_⟩
  · rw [status, after, ← before]
    exact kept.up
  · have still : link (⟨next, watched.history⟩ : Watched E ν τ) = watched.link := by
      rw [unlinked]
      unfold link
      rw [after]
      rfl
    rw [still, status]
    exact kept.backed
  · intro owner attached
    rw [after] at attached
    cases attached
  · rw [Node.resumeAfter_of_owner?_eq_none after]
    exact tokens

theorem Kept.linked (kept : Kept params watched) {owner : ν}
    (phase : next.phase.owner? = some owner) (synced : owner ∈ watched.history.synced)
    (up : next.status.masterLink = .up) (backed : (⟨next.status, some link⟩ : Reported).Backed)
    (resume : next.resume = watched.node.resume)
    (after : ∀ token, next.resumeAfter.token = some token → params.issuer token ∈ watched.history.synced) :
    Kept params ⟨next, ⟨some ⟨owner, link⟩, watched.history.synced⟩⟩ where
  up := by
    rw [phase]
    exact iff_of_true up rfl
  backed := by
    have here : Watched.link (⟨next, ⟨some ⟨owner, link⟩, watched.history.synced⟩⟩ : Watched E ν τ) =
        some link := by
      unfold Watched.link
      rw [phase]
      rfl
    rw [here]
    exact backed
  contact := by
    intro other found
    cases phase.symm.trans found
    exact ⟨link, rfl, synced⟩
  verdict := by
    intro down
    cases phase.symm.trans down
  resume := by
    rw [resume]
    exact kept.resume
  resumeAfter := after

private theorem backed_observeFrame (backed : (⟨status, some link⟩ : Reported).Backed) (frame : Frame) :
    (⟨Node.observeFrame frame status,
      some { link with observed := seen link.observed frame }⟩ : Reported).Backed := by
  unfold Node.observeFrame seen
  cases Node.streamFrameOffset frame with
  | none => exact backed
  | some offset => exact @Reported.Backed.step _ backed (.observedMasterHead offset) trivial

private theorem observeFrame_masterLink (frame : Frame) (status : ReplNodeStatus) :
    (Node.observeFrame frame status).masterLink = status.masterLink := by
  unfold Node.observeFrame
  cases Node.streamFrameOffset frame <;> rfl

/-- A node that is called in sync is in sync with the owner it is in contact with. -/
theorem Kept.inSync (kept : Kept params watched)
    (agreed : watched.node.status.isInSync params.replicaMaxLag = true) :
    ∃ contact, watched.history.contact = some contact ∧ contact.owner ∈ watched.history.synced ∧
      contact.link.observed ≤ contact.link.applied + params.replicaMaxLag := by
  obtain ⟨-, up, -⟩ := ReplNodeStatus.isInSync_iff.1 agreed
  obtain ⟨owner, attached⟩ := Option.isSome_iff_exists.1 (kept.up.1 up)
  obtain ⟨link, contact, synced⟩ := kept.contact owner attached
  obtain ⟨truth, linked, behind⟩ := kept.backed.truthful params.replicaMaxLag agreed
  have here : watched.link = some link := by
    unfold Watched.link
    rw [attached, contact]
    rfl
  cases here.symm.trans linked
  exact ⟨⟨owner, link⟩, contact, synced, behind⟩

/-- The verdict after an attempt is about the last contact. -/
theorem Kept.judged (kept : Kept params watched) (agreed : watched.node.verdict params = true) :
    ∃ contact, watched.history.contact = some contact ∧ contact.owner ∈ watched.history.synced ∧
      contact.link.observed ≤ contact.link.applied + params.replicaMaxLag := by
  unfold Node.verdict Node.latchInSync at agreed
  by_cases up : watched.node.status.masterLink = .up
  · rw [if_pos (decide_eq_true up)] at agreed
    exact kept.inSync agreed
  rw [if_neg (by simpa using up)] at agreed
  have down : watched.node.phase.owner? = none := by
    rw [kept.up] at up
    exact Option.not_isSome_iff_eq_none.1 up
  exact kept.verdict down agreed

private theorem kept_booted (booted : node.Booted) : Kept params ⟨node, {}⟩ where
  up := by
    rw [booted.status, booted.idle]
    exact iff_of_false (by decide) (by simp [Phase.owner?])
  backed := by
    intro role
    rw [booted.status] at role
    cases role
  contact := by
    intro owner found
    rw [booted.idle] at found
    cases found
  verdict := by
    intro _ agreed
    rw [booted.verdict] at agreed
    cases agreed
  resume := by
    intro token found
    rw [booted.resume] at found
    cases found
  resumeAfter := by
    intro token found
    rw [Node.resumeAfter_of_owner?_eq_none (by rw [booted.idle]; rfl), booted.resume] at found
    cases found

variable [EvictionPolicy E] [DecidableEq ν]

section

variable (kept : Kept params watched)
include kept

omit [EvictionPolicy E] [DecidableEq ν] in
theorem Kept.ended (now : ℕ) : Kept params ⟨{ watched.node with
      resume := watched.node.resumeAfter
      status := watched.node.status.setMasterLinkDown
      downSince := some (watched.node.outageStart now)
      lastContactInSync := watched.node.verdict params
      phase := .idle }, watched.history⟩ where
  up := by
    constructor
    · intro up
      cases up
    · intro some
      cases some
  backed := by
    intro role up
    cases up
  contact := by
    intro owner found
    cases found
  verdict := fun _ agreed => kept.judged agreed
  resume := kept.resumeAfter
  resumeAfter := kept.resumeAfter

/-- A frame that came over the link, and what the replica made of it. -/
theorem Kept.frame {owner : ν} {token : Option τ} {applied : ℕ}
    (tailing : watched.node.phase = .tailing owner token applied) (frame : Frame) (now : ℕ) :
    Kept params (watched.step params (.frame frame now)) := by
  obtain ⟨link, contact, synced⟩ := kept.contact owner (by rw [tailing]; rfl)
  have backed := kept.backed
  have linked : watched.link = some link := by
    unfold Watched.link
    rw [tailing, contact]
    rfl
  have up : watched.node.status.masterLink = .up := kept.up.2 (by rw [tailing]; rfl)
  have tokens := kept.resumeAfter
  have after : watched.node.resumeAfter = ⟨applied, token⟩ := by
    unfold Node.resumeAfter
    rw [tailing]
  rw [linked] at backed
  rw [after] at tokens
  have shown := backed_observeFrame backed frame
  have stepped : watched.node.step params (.frame frame now) =
      watched.node.tailFrame owner token applied frame now := by
    simp only [Node.step, tailing]
  have shownUp : (Node.observeFrame frame watched.node.status).masterLink = .up :=
    (observeFrame_masterLink frame watched.node.status).trans up
  unfold Watched.step
  rw [stepped, tailing]
  unfold Node.tailFrame
  split
  · simp only [History.follow, contact, Option.map_some]
    exact kept.linked rfl synced shownUp shown rfl tokens
  rename_i outcome replica proper applies
  simp only [History.follow, contact, Option.map_some]
  refine kept.linked rfl synced shownUp ?_ rfl tokens
  exact @Reported.Backed.step _ shown (.replicaApplied replica.applied) trivial

theorem Kept.beside (other : ∀ frame now, event ≠ .frame frame now)
    (phase : (watched.node.step params event).phase = watched.node.phase)
    (resume : (watched.node.step params event).resume = watched.node.resume)
    (latched : (watched.node.step params event).lastContactInSync = watched.node.lastContactInSync)
    (linked : (watched.node.step params event).status.masterLink = watched.node.status.masterLink)
    (backed : (⟨(watched.node.step params event).status, watched.link⟩ : Reported).Backed) :
    Kept params (watched.step params event) := by
  unfold Watched.step
  dsimp only
  rw [phase, History.follow_same _ _ other]
  exact kept.aside phase resume latched linked backed

/-- The control task between two attempts: what it forgets or notes down is not about the link. -/
theorem Kept.rest (other : ∀ frame now, event ≠ .frame frame now)
    (same : watched.node.step params event = watched.node) : Kept params (watched.step params event) :=
  kept.beside other (by rw [same]) (by rw [same]) (by rw [same]) (by rw [same])
    (by rw [same]; exact kept.backed)

theorem Kept.still (same : watched.node.step params event = watched.node)
    (told : watched.history.follow watched.node.phase watched.node.phase event = watched.history) :
    Kept params (watched.step params event) := by
  unfold Watched.step
  rw [same]
  dsimp only
  rw [told]
  exact kept

theorem Kept.step (allowed : watched.Allowed params event) : Kept params (watched.step params event) := by
  cases event with
  | commit cmd => exact kept.beside (by simp) rfl rfl rfl rfl kept.backed
  | write op => exact kept.beside (by simp) rfl rfl rfl rfl kept.backed
  | reap db key now =>
    by_cases passive : watched.node.replicaPassive = true
    · exact kept.rest (by simp) (if_pos passive)
    have stepped : watched.node.step params (.reap db key now) = _ := if_neg passive
    refine kept.beside (by simp) ?_ ?_ ?_ ?_ ?_ <;> rw [stepped]
    exacts [rfl, rfl, rfl, rfl, kept.backed]
  | publishHead =>
    exact kept.beside (by simp) rfl rfl rfl rfl
      (@Reported.Backed.step _ kept.backed (.masterHead watched.node.ring.head) trivial)
  | publishReplica nodeId acked => exact kept.beside (by simp) rfl rfl rfl rfl kept.backed
  | publishGone nodeId => exact kept.beside (by simp) rfl rfl rfl rfl kept.backed
  | poll =>
    by_cases resting : watched.node.isIdle = true ∧ (watched.node.map.anyImportingSlot.isSome ∨
        (watched.node.map.anyReplicaOfSelf params.self).isNone)
    · have stepped : watched.node.step params .poll = { watched.node with
          downSince := none, lastContactInSync := false, resume := .fresh } := if_pos resting
      have down := Node.owner?_of_isIdle resting.1
      unfold Watched.step
      rw [stepped]
      dsimp only
      rw [History.follow_same _ _ (by simp)]
      exact kept.between down down rfl (.inr rfl) (fun agreed => nomatch agreed)
    · exact kept.rest (by simp) (if_neg resting)
  | unresolved now =>
    by_cases resting : watched.node.isIdle = true
    · have stepped : watched.node.step params (.unresolved now) = _ := if_pos resting
      refine kept.beside (by simp) ?_ ?_ ?_ ?_ ?_ <;> rw [stepped]
      exact kept.backed
    · exact kept.rest (by simp) (if_neg resting)
  | dial =>
    by_cases resting : watched.node.isIdle = true ∧ watched.node.map.anyImportingSlot.isNone
    · cases found : (watched.node.map.anyReplicaOfSelf params.self).bind watched.node.map.movedTarget with
      | none =>
        refine kept.rest (by simp) ?_
        simp only [Node.step, if_pos resting, found]
      | some owner =>
        have stepped : watched.node.step params .dial = { watched.node with phase := .dialing owner } := by
          simp only [Node.step, if_pos resting, found]
        have idle := Node.phase_of_isIdle resting.1
        unfold Watched.step
        rw [stepped, idle]
        exact kept.between (Node.owner?_of_isIdle resting.1) rfl rfl (.inl rfl) (fun agreed => agreed)
    · exact kept.rest (by simp) (by simp only [Node.step, if_neg resting])
  | synced token entries endOffset =>
    rcases Node.synced_cases params with
      same | ⟨owner, store, dialing, issued, stepped⟩
    · exact kept.rest (by simp) same
    have above : watched.node.status.nodeOffset ≤ endOffset := allowed
    unfold Watched.step
    rw [stepped, dialing]
    exact kept.attached issued above store (fun _ member => List.mem_cons_of_mem _ member)
      (List.mem_cons_self ..)
  | resumed =>
    rcases Node.resumed_cases params with
      same | ⟨owner, token, dialing, found, issued, stepped⟩
    · exact kept.rest (by simp) same
    have above : watched.node.status.nodeOffset ≤ watched.node.resume.offset := allowed
    have synced : owner ∈ watched.history.synced := issued ▸ kept.resume token found
    unfold Watched.step
    rw [stepped, dialing]
    exact kept.attached issued above watched.node.store (fun _ member => member) synced
  | frame frame now =>
    cases tailing : watched.node.phase with
    | tailing owner token applied => exact kept.frame tailing frame now
    | idle => exact kept.still (by simp only [Node.step, tailing]) (by rw [tailing]; rfl)
    | dialing owner => exact kept.still (by simp only [Node.step, tailing]) (by rw [tailing]; rfl)
    | returned owner resume =>
      exact kept.still (by simp only [Node.step, tailing]) (by rw [tailing]; rfl)
  | ended now =>
    by_cases resting : watched.node.isIdle = true
    · exact kept.rest (by simp) (if_pos resting)
    have stepped : watched.node.step params (.ended now) = _ := if_neg resting
    unfold Watched.step
    rw [stepped]
    dsimp only
    rw [History.follow_idle]
    exact kept.ended now
  | failover => exact kept.rest (by simp) rfl
  | abortedCutover => exact kept.beside (by simp) rfl rfl rfl rfl kept.backed

end

omit [EvictionPolicy E] in
private theorem promotionProposal_eq_some (proposed : node.promotionProposal params inSync = some slots) :
    inSync = true ∧ ∀ slot ∈ slots,
      slot < clusterSlots ∧ node.map.isReplicaOfSelf params.self slot = true := by
  unfold Node.promotionProposal at proposed
  dsimp only at proposed
  split_ifs at proposed with refused
  rw [Option.some.injEq] at proposed
  subst proposed
  push Not at refused
  exact ⟨by simpa using refused.1, fun slot member => SlotMap.mem_slotsReplicatedBySelf.1 member⟩

/-- Whenever a node proposes its promotion, it has mirrored every slot that it proposes: over every
run of committed changes, attaches, frames, drops and failovers whose steps meet the condition. -/
theorem mirrored_of_proposes {node : Node E ν τ} (booted : node.Booted)
    {events : List (NodeEvent ν τ)} {event : NodeEvent ν τ}
    (meets : Guarded.Throughout (step params) (Allowed params) ⟨node, {}⟩ (events ++ [event]))
    {slots : List ℕ}
    (proposed : (events.foldl (step params) ⟨node, {}⟩).node.proposes params event = some slots) :
    ∀ slot ∈ slots, (events.foldl (step params) ⟨node, {}⟩).Mirrored params slot := by
  obtain ⟨before, allowed, -⟩ := meets.of_append
  have kept : Kept params (events.foldl (step params) ⟨node, {}⟩) :=
    before.invariant (fun _ _ kept allowed => kept.step allowed) (kept_booted booted)
  cases event with
  | ended now =>
    simp only [Node.proposes] at proposed
    split_ifs at proposed with due
    obtain ⟨agreed, replicated⟩ := promotionProposal_eq_some proposed
    obtain ⟨contact, last, synced, behind⟩ := kept.judged agreed
    intro slot member
    obtain ⟨inside, mine⟩ := replicated slot member
    exact ⟨contact, last, allowed due.2 contact last slot inside mine, synced, behind⟩
  | failover =>
    obtain ⟨agreed, replicated⟩ := promotionProposal_eq_some proposed
    obtain ⟨contact, last, synced, behind⟩ := kept.inSync agreed
    intro slot member
    obtain ⟨inside, mine⟩ := replicated slot member
    exact ⟨contact, last, allowed contact last slot inside mine, synced, behind⟩
  | _ => cases proposed

def replicaMap (owner : ℕ → ℕ) : SlotMap ℕ :=
  { nodes := [0, 1, 2]
    owner := fun slot => some (owner slot)
    replica := fun slot => if slot < 2 then some 0 else none }

def replicaNode (owner : ℕ → ℕ) : Node NullEviction ℕ ℕ :=
  { map := replicaMap owner
    store := Op.watchedPair
    ring := .withDisk 8 0 none
    replicaPassive := false
    status := {}
    phase := .idle
    resume := .fresh
    downSince := none
    lastContactInSync := false }

def replicaParams : NodeParams NullEviction ℕ ℕ :=
  { self := 0
    endpoint := fun node => ("node", 7000 + node)
    issuer := fun token => token
    freshShardStore := .withHooks 2 {}
    failoverTimeout := 5
    replicaMaxLag := 0 }

theorem booted_replicaNode (owner : ℕ → ℕ) : (replicaNode owner).Booted where
  present := Nat.zero_lt_two
  active := rfl
  observing := rfl
  ring := ⟨rfl, ReplRing.keeps_withDisk _ _ (fun _ none => by cases none)⟩
  serving := rfl
  status := rfl
  idle := rfl
  resume := rfl
  down := rfl
  verdict := rfl

/-- The control task follows the owner of the first slot. -/
theorem dial_replicaMap {node : Node NullEviction ℕ ℕ} (map : node.map = replicaMap owner)
    (idle : node.phase = .idle) :
    node.step replicaParams .dial = { node with phase := .dialing (owner 0) } := by
  have stable : (replicaMap owner).anyImportingSlot = none := by
    simp [SlotMap.anyImportingSlot, SlotMap.isImporting, replicaMap]
  have first : (replicaMap owner).anyReplicaOfSelf 0 = some 0 := by
    unfold SlotMap.anyReplicaOfSelf
    simp [SlotMap.isReplicaOfSelf, replicaMap, clusterSlots]
  have resting : node.isIdle = true ∧ node.map.anyImportingSlot.isNone = true := by
    rw [map, stable]
    exact ⟨by simp only [Node.isIdle, idle], rfl⟩
  have target : (node.map.anyReplicaOfSelf replicaParams.self).bind node.map.movedTarget =
      some (owner 0) := by
    rw [map]
    exact congrArg (Option.bind · (replicaMap owner).movedTarget) first
  simp only [Node.step, if_pos resting, target]

theorem step_dial_replicaMap {watched : Watched NullEviction ℕ ℕ}
    (map : watched.node.map = replicaMap owner) (idle : watched.node.phase = .idle) :
    watched.step replicaParams .dial =
      ⟨{ watched.node with phase := .dialing (owner 0) }, watched.history⟩ := by
  unfold step
  rw [dial_replicaMap map idle, idle]
  rfl

theorem promotionProposal_replicaMap {node : Node NullEviction ℕ ℕ}
    (map : node.map = replicaMap owner) (agreed : inSync = true) :
    ∃ slots, node.promotionProposal replicaParams inSync = some slots ∧ 1 ∈ slots := by
  have member : 1 ∈ node.map.slotsReplicatedBySelf replicaParams.self := by
    rw [SlotMap.mem_slotsReplicatedBySelf, map]
    exact ⟨by decide, rfl⟩
  refine ⟨_, ?_, member⟩
  simp only [Node.promotionProposal, agreed]
  simpa using List.ne_nil_of_mem member

/-- A node that follows the owner of both its slots, applies a frame and loses the link. -/
def outageEvents : List (NodeEvent ℕ ℕ) :=
  [.dial, .synced 1 [] 0, .frame (.streamDel 1 0 [97]) 4, .ended 10, .dial]

/-- It proposes its promotion after the timeout. -/
theorem mirrored_of_proposes_replicaNode : ∃ slots, (outageEvents.foldl (step replicaParams)
        ⟨replicaNode fun _ => 1, {}⟩).node.proposes replicaParams (.ended 20) = some slots ∧
      1 ∈ slots ∧ ∀ slot ∈ slots, (outageEvents.foldl (step replicaParams)
        ⟨replicaNode fun _ => 1, {}⟩).Mirrored replicaParams slot := by
  have meets : Guarded.Throughout (step replicaParams) (Allowed replicaParams)
      ⟨replicaNode fun _ => 1, {}⟩ (outageEvents ++ [.ended 20]) := by
    refine ⟨trivial, ?_⟩
    rw [step_dial_replicaMap rfl rfl]
    refine ⟨le_rfl, trivial, ?_, trivial, ?_, trivial⟩
    · rintro late contact ⟨⟩ slot inside replicated
      rfl
    · rw [step_dial_replicaMap rfl rfl]
      rintro late contact ⟨⟩ slot inside replicated
      rfl
  have proposed : ∃ slots, (outageEvents.foldl (step replicaParams)
      ⟨replicaNode fun _ => 1, {}⟩).node.proposes replicaParams (.ended 20) = some slots ∧
        1 ∈ slots := by
    have dialed := congrArg (outageEvents.tail.foldl (step replicaParams))
      (@step_dial_replicaMap (fun _ => 1) ⟨replicaNode fun _ => 1, {}⟩ rfl rfl)
    simp only [outageEvents, List.tail_cons, List.foldl_cons, List.foldl_nil] at dialed ⊢
    rw [dialed, step_dial_replicaMap rfl rfl, Node.proposes, if_pos ⟨rfl, Nat.le_add_left 5 5⟩]
    exact promotionProposal_replicaMap rfl rfl
  obtain ⟨slots, proposed, member⟩ := proposed
  exact ⟨slots, proposed, member, mirrored_of_proposes (booted_replicaNode _) meets proposed⟩

/-- The slots belong to two nodes. The node is attached to the first, loses it, and after the
timeout it proposes its promotion for the slot of the second as well. -/
theorem not_mirrored_twoOwners :
    (replicaNode fun slot => slot + 1).Booted ∧
    (∃ slots, ([.dial, .synced 1 [] 0, .ended 10, .dial].foldl (step replicaParams)
        ⟨replicaNode fun slot => slot + 1, {}⟩).node.proposes replicaParams (.ended 20) =
          some slots ∧ 1 ∈ slots) ∧
      ¬([.dial, .synced 1 [] 0, .ended 10, .dial].foldl (step replicaParams)
        ⟨replicaNode fun slot => slot + 1, {}⟩).Mirrored replicaParams 1 := by
  simp only [List.foldl_cons, List.foldl_nil]
  rw [@step_dial_replicaMap (fun slot => slot + 1) ⟨replicaNode fun slot => slot + 1, {}⟩ rfl rfl,
    step_dial_replicaMap rfl rfl]
  refine ⟨booted_replicaNode _, ?_, ?_⟩
  · simp only [Node.proposes]
    rw [if_pos ⟨rfl, Nat.le_add_left 5 5⟩]
    exact promotionProposal_replicaMap rfl rfl
  · rintro ⟨contact, ⟨⟩, owned, -⟩
    cases owned

end Watched

end IronCache.Repl
