import IronCache.Repl.Followed

/-!
# A resume does not diverge

What a replica keeps to resume from leads, with the operations of the ring above it, to what its
owner holds.
-/

namespace IronCache.Repl

open Store
open Function (update update_of_ne update_self)
open List
open Option

namespace Fleet

variable {E ν : Type} [EvictionPolicy E] [DecidableEq ν] {params : FleetParams E} {time : ℕ}
  {fleet : Fleet E ν}

/-- A step of one node only. -/
structure Elsewhere (node : ν) (fleet next : Fleet E ν) : Prop where
  store : ∀ other, other ≠ node → next.store other = fleet.store other
  ring : ∀ other, other ≠ node → next.ring other = fleet.ring other
  replicaPassive : ∀ other, other ≠ node → next.replicaPassive other = fleet.replicaPassive other
  resume : ∀ other, other ≠ node → next.resume other = fleet.resume other
  link : ∀ other, other ≠ node → next.link other = fleet.link other
  token : next.token = fleet.token
  minted : next.minted = fleet.minted

section

variable (sound : Sound params time fleet)
include sound

variable {replica : ν} {attach : Attach E ν} {applied : ℕ}

/-- A step of a node that is, or becomes, a replica. Nobody can rest on it then, and what it rests
on itself is to be shown. -/
theorem Sound.become {next : Fleet E ν} (elsewhere : Elsewhere replica fleet next)
    (passive : next.replicaPassive replica = true) (present : 0 < (next.store replica).databases)
    (recalled : ∀ token, (next.resume replica).token = some token → token < fleet.minted)
    (answered : ∀ attach, next.link replica = some attach → Sized attach.inlet ∧ fleet.Answers attach)
    (remembered : ∀ owner, Untailed (next.link replica) →
      (next.resume replica).token = some (fleet.token owner) → fleet.replicaPassive owner = false →
      owner ≠ replica →
      Tails time 0 (fleet.store owner) ⟨{ next.store replica with passive := true }, (next.resume replica).offset⟩)
    (linked : ∀ attach, next.link replica = some attach → fleet.token attach.owner = attach.token →
      fleet.replicaPassive attach.owner = false → attach.owner ≠ replica →
      Stage params time (fleet.store attach.owner) (next.store replica) (next.resume replica) attach) :
    Sound params time next := by
  -- An owner that nothing was swapped into is another node, and it is as it was.
  have others : ∀ owner, next.replicaPassive owner = false →
      owner ≠ replica ∧ fleet.replicaPassive owner = false := by
    intro owner serving
    have other : owner ≠ replica := by
      rintro rfl
      cases passive.symm.trans serving
    exact ⟨other, elsewhere.replicaPassive owner other ▸ serving⟩
  refine ⟨fun node => ?_, fun node attach found => ?_, fun node => ?_, ?_, fun node token found => ?_,
    fun node attach found => ?_, fun owner serving => ?_, fun node serving => ?_,
    fun node owner untailed token serving => ?_, fun node attach found token serving => ?_⟩
  · by_cases here : node = replica
    · exact here ▸ present
    · rw [elsewhere.store node here]
      exact sound.present node
  · by_cases here : node = replica
    · subst here
      exact (answered attach found).1
    · rw [elsewhere.link node here] at found
      exact sound.sized node attach found
  · rw [elsewhere.token, elsewhere.minted]
    exact sound.minted node
  · rw [elsewhere.token]
    exact sound.distinct
  · rw [elsewhere.minted]
    by_cases here : node = replica
    · subst here
      exact recalled token found
    · rw [elsewhere.resume node here] at found
      exact sound.recalled node token found
  · rw [elsewhere.minted, elsewhere.token]
    by_cases here : node = replica
    · subst here
      exact (answered attach found).2
    · rw [elsewhere.link node here] at found
      exact sound.answered node attach found
  · obtain ⟨other, serving⟩ := others owner serving
    rw [elsewhere.store owner other, elsewhere.ring owner other]
    exact sound.intact owner serving
  · obtain ⟨other, serving⟩ := others node serving
    unfold Remembers
    rw [elsewhere.resume node other, elsewhere.link node other]
    exact sound.forgetful node serving
  · obtain ⟨other, serving⟩ := others owner serving
    rw [elsewhere.token] at token
    rw [elsewhere.store owner other]
    by_cases here : node = replica
    · subst here
      exact remembered owner untailed token serving other
    rw [elsewhere.link node here] at untailed
    rw [elsewhere.resume node here] at token ⊢
    rw [elsewhere.store node here]
    exact sound.remembered node owner untailed token serving
  · obtain ⟨other, serving⟩ := others attach.owner serving
    rw [elsewhere.token] at token
    rw [elsewhere.store attach.owner other]
    by_cases here : node = replica
    · subst here
      exact linked attach found token serving other
    rw [elsewhere.link node here] at found
    rw [elsewhere.store node here, elsewhere.resume node here]
    exact sound.linked node attach found token serving

theorem Sound.lose (passive : fleet.replicaPassive replica = true) (answered : fleet.Answers attach)
    (rests : fleet.token attach.owner = attach.token → fleet.replicaPassive attach.owner = false →
      attach.owner ≠ replica →
      Tails time 0 (fleet.store attach.owner) ⟨fleet.store replica, applied⟩) :
    Sound params time { fleet.setLink replica none with
      resume := update fleet.resume replica ⟨applied, some attach.token⟩ } := by
  refine sound.become ⟨fun _ _ => rfl, fun _ _ => rfl, fun _ _ => rfl, fun _ other => ?_,
    fun _ other => ?_, rfl, rfl⟩ passive (sound.present replica) ?_ ?_ ?_ ?_
  · exact update_of_ne other ..
  · exact update_of_ne other ..
  · dsimp only
    rw [update_self]
    rintro token ⟨⟩
    exact answered.1
  · intro next found
    cases (update_self ..).symm.trans found
  · intro owner _ token serving other
    dsimp only at token ⊢
    rw [update_self] at token ⊢
    obtain rfl := answered.2 owner (some.inj token).symm
    exact (rests (some.inj token).symm serving other).congr rfl rfl rfl
  · intro next found
    cases (update_self ..).symm.trans found

theorem Sound.tail (early : now ≤ time) (passive : fleet.replicaPassive replica = true)
    (answered : fleet.Answers attach)
    (rests : fleet.token attach.owner = attach.token → fleet.replicaPassive attach.owner = false →
      NotSyncing attach.feed ∧
      Tails time 0 (fleet.store attach.owner) ⟨fleet.store replica, applied⟩ ∧
      ∀ sent ∈ frame :: attach.frames, Shipped (heard (fleet.store attach.owner)) sent) :
    Sound params time (fleet.tail replica attach applied frame now) := by
  unfold Fleet.tail
  split
  · exact sound.lose passive answered fun token serving _ => (rests token serving).2.1
  rename_i outcome follower _ applies
  have stored : update fleet.store replica follower.store replica = follower.store :=
    update_self ..
  refine sound.become ⟨fun _ other => ?_, fun _ other => ?_, fun _ _ => rfl, fun _ _ => rfl,
    fun _ other => ?_, rfl, rfl⟩ passive ?_ (sound.recalled replica) ?_ ?_ ?_
  · exact update_of_ne other ..
  · exact update_of_ne other ..
  · exact update_of_ne other ..
  · dsimp only [setLink, setStore]
    rw [stored]
    have kept := @Replica.kept_apply _ _ ⟨fleet.store replica, applied⟩ (sound.present replica) frame now
    rw [applies] at kept
    exact kept.databases ▸ sound.present replica
  · intro next found
    cases (update_self ..).symm.trans found
    exact ⟨trivial, answered⟩
  · intro owner untailed
    dsimp only [setLink, setStore] at untailed
    rw [update_self] at untailed
    exact absurd rfl (untailed _ follower.applied rfl)
  · intro next found token serving _
    cases (update_self ..).symm.trans found
    dsimp only [setLink, setStore]
    rw [stored]
    obtain ⟨fed, tails, shipped⟩ := rests token serving
    have recorded := (sound.intact _ serving).recorded
    exact .tailing fed rfl (tails.apply recorded (shipped frame mem_cons_self) early applies)
      fun sent member => shipped sent (mem_cons_of_mem _ member)

/-- A replica that is resumed marks its store as it is. -/
theorem Sound.mark (linked : fleet.link replica = some attach) (inlet : attach.inlet = .receiving receiver) :
    Sound params time (fleet.setPassive replica (fleet.store replica)) := by
  have stored : update fleet.store replica { fleet.store replica with passive := true }
      replica = { fleet.store replica with passive := true } := update_self ..
  refine sound.become ⟨fun _ other => ?_, fun _ _ => rfl, fun _ other => ?_, fun _ _ => rfl,
    fun _ _ => rfl, rfl, rfl⟩ ?_ ?_ (sound.recalled replica) ?_ ?_ ?_
  · exact update_of_ne other ..
  · exact update_of_ne other ..
  · exact update_self ..
  · dsimp only [setPassive]
    rw [stored]
    exact sound.present replica
  · intro next found
    exact ⟨sound.sized replica next found, sound.answered replica next found⟩
  · intro owner untailed token serving _
    dsimp only [setPassive]
    rw [stored]
    exact sound.remembered replica owner untailed token serving
  · intro next found token serving _
    cases linked.symm.trans found
    have stage := sound.linked replica attach linked token serving
    cases stage with
    | syncing fed inlet opens loads syncs => exact .syncing fed inlet opens loads syncs
    | ended fed inlet opens framed loads tails shipped =>
      exact .ended fed inlet opens framed loads tails shipped
    | resuming fed inlet token shipped => exact .resuming fed inlet token shipped
    | tailing fed tailing => cases inlet.symm.trans tailing

theorem Sound.swap (present : 0 < follower.store.databases) (answered : fleet.Answers attach)
    (inlet : attach.inlet = .tailing follower.applied)
    (rests : fleet.token attach.owner = attach.token → fleet.replicaPassive attach.owner = false →
      NotSyncing attach.feed ∧ Tails time 0 (fleet.store attach.owner) follower ∧
      ∀ sent ∈ attach.frames, Shipped (heard (fleet.store attach.owner)) sent) :
    Sound params time ((fleet.setPassive replica follower.store).setLink replica (some attach)) := by
  have stored : update fleet.store replica { follower.store with passive := true }
      replica = { follower.store with passive := true } := update_self ..
  refine sound.become ⟨fun _ other => ?_, fun _ _ => rfl, fun _ other => ?_, fun _ _ => rfl,
    fun _ other => ?_, rfl, rfl⟩ ?_ ?_ (sound.recalled replica) ?_ ?_ ?_
  · exact update_of_ne other ..
  · exact update_of_ne other ..
  · exact update_of_ne other ..
  · exact update_self ..
  · dsimp only [setLink, setPassive]
    rw [stored]
    exact present
  · intro next found
    cases (update_self ..).symm.trans found
    rw [inlet]
    trivial
  · intro owner untailed
    dsimp only [setLink, setPassive] at untailed
    rw [update_self] at untailed
    exact absurd inlet (untailed _ follower.applied rfl)
  · intro next found token serving _
    cases (update_self ..).symm.trans found
    dsimp only [setLink, setPassive]
    rw [stored]
    obtain ⟨fed, tails, shipped⟩ := rests token serving
    exact .tailing fed inlet (tails.congr rfl rfl rfl) shipped

end

variable {receiver : Receiver E} {frame : Frame} {attach : Attach E ν} {frames : List Frame}
  {replica : ν} {loaded : ShardStore E}

omit [DecidableEq ν] in
theorem load_ne_waiting (first : receiver = .waiting → ∃ replid cut, frame = .fullSync replid cut) :
    receiver.load fresh frame ≠ .waiting := by
  intro waits
  cases receiver with
  | waiting =>
    obtain ⟨replid, cut, rfl⟩ := first rfl
    cases waits
  | loading loaded =>
    unfold Receiver.load at waits
    split at waits <;> try cases waits
    split at waits <;> cases waits
  | tailing replica => cases waits
  | detached => cases waits

omit [DecidableEq ν] in
/-- A frame of the sync: the replica goes on loading, or has come to the end of it. -/
theorem Stage.load {primary store : ShardStore E} {resume : ResumeState ℕ}
    (stage : Stage params time primary store resume attach)
    (inlet : attach.inlet = .receiving receiver) (framed : attach.frames = frame :: frames)
    (first : receiver = .waiting → ∃ replid cut, frame = .fullSync replid cut) :
    (∃ follower, receiver.load params.freshShardStore frame = .tailing follower ∧
      NotSyncing attach.feed ∧ Tails time 0 primary follower ∧
        ∀ sent ∈ frames, Shipped (heard primary) sent) ∨
    (∃ loaded, receiver.load params.freshShardStore frame = .loading loaded) ∧
      Stage params time primary store resume
        { attach with
          frames := frames
          inlet := .receiving (receiver.load params.freshShardStore frame) } := by
  have awake := @load_ne_waiting _ _ receiver frame params.freshShardStore first
  -- A receiver that will be loading is loading now.
  have loading : ∀ {rest : List Frame} {loaded : ShardStore E},
      rest.foldl (Receiver.load params.freshShardStore)
        (receiver.load params.freshShardStore frame) = .loading loaded →
      ∃ loaded, receiver.load params.freshShardStore frame = .loading loaded := by
    intro rest loaded loads
    cases next : receiver.load params.freshShardStore frame with
    | waiting => exact absurd next awake
    | loading loaded => exact ⟨loaded, rfl⟩
    | tailing follower =>
      rw [next, Receiver.load_tailing] at loads
      cases loads
    | detached =>
      rw [next, Receiver.load_detached] at loads
      cases loads
  cases stage with
  | syncing fed same opens loads syncs =>
    cases inlet.symm.trans same
    rw [framed, foldl_cons] at loads
    exact .inr ⟨loading loads, .syncing fed rfl (fun waits => absurd waits awake) loads syncs⟩
  | @ended sync tail cut loaded _ fed same opens sent loads tails shipped =>
    cases inlet.symm.trans same
    rw [framed] at sent
    cases sync with
    | nil =>
      obtain ⟨rfl, rfl⟩ := cons.inj sent
      have here : receiver = .loading loaded := loads
      refine .inl ⟨_, ?_, fed, tails, shipped⟩
      rw [here]
      rfl
    | cons next sync =>
      obtain ⟨rfl, rfl⟩ := cons.inj sent
      exact .inr ⟨loading loads, .ended fed rfl (fun waits => absurd waits awake) rfl loads tails shipped⟩
  | resuming fed same token shipped =>
    cases inlet.symm.trans same
    obtain ⟨replid, cut, rfl⟩ := first rfl
    exact absurd (shipped _ (framed ▸ mem_cons_self)) Shipped.not_fullSync
  | tailing fed same => cases inlet.symm.trans same

omit [DecidableEq ν] in
theorem Sound.passive_of_tailing (sound : Sound params time fleet)
    (linked : fleet.link replica = some attach) (inlet : attach.inlet = .tailing applied) :
    fleet.replicaPassive replica = true := by
  by_contra serving
  refine sound.forgetful replica (Bool.eq_false_iff.mpr serving) (.inr fun untailed => ?_)
  exact untailed attach applied linked inlet

private theorem sized_load (sized : Sized (.receiving receiver))
    (fresh : 0 < params.freshShardStore.databases) :
    (∀ loaded, receiver.load params.freshShardStore frame = .loading loaded → 0 < loaded.databases) ∧
      ∀ follower, receiver.load params.freshShardStore frame = .tailing follower →
        0 < follower.store.databases := by
  cases receiver with
  | waiting =>
    constructor
    · intro loaded loads
      cases frame <;> cases loads
      exact fresh
    · intro follower ends
      cases frame <;> cases ends
  | loading loaded =>
    cases frame with
    | syncKv db key kvobjBytes =>
      unfold Receiver.load
      dsimp only
      cases decodeKvobj kvobjBytes with
      | none => exact ⟨fun _ loads => (by cases loads), fun _ ends => by cases ends⟩
      | some object =>
        refine ⟨fun next loads => ?_, fun _ ends => by cases ends⟩
        cases loads
        exact (@Op.kept_step _ _ loaded (.insertObject db object) sized trivial).databases ▸ sized
    | syncEnd endOffset =>
      refine ⟨fun _ loads => (by cases loads), fun follower ends => ?_⟩
      cases ends
      exact sized
    | fullSync replid endOffset =>
      refine ⟨fun next loads => ?_, fun _ ends => by cases ends⟩
      cases loads
      exact fresh
    | _ =>
      refine ⟨fun next loads => ?_, fun _ ends => by cases ends⟩
      cases loads
      exact sized
  | tailing follower => exact absurd sized not_false
  | detached => exact ⟨fun _ loads => (by cases loads), fun _ ends => by cases ends⟩

theorem Sound.receive (sound : Sound params time fleet)
    (fresh : 0 < params.freshShardStore.databases) (linked : fleet.link replica = some attach)
    (inlet : attach.inlet = .receiving receiver) (framed : attach.frames = frame :: frames)
    (first : receiver = .waiting → ∃ replid cut, frame = .fullSync replid cut) :
    Sound params time (match receiver.load params.freshShardStore frame with
      | .tailing follower =>
        (fleet.setPassive replica follower.store).setLink replica
          (some { attach with frames := frames, inlet := .tailing follower.applied })
      | .detached => fleet.setLink replica none
      | next => fleet.setLink replica (some { attach with frames := frames, inlet := .receiving next })) := by
  have answered := sound.answered replica attach linked
  have before : Untailed (fleet.link replica) := linked ▸ untailed_receiving inlet
  have sized := sound.sized replica attach linked
  rw [inlet] at sized
  obtain ⟨loads, ends⟩ := sized_load sized fresh
  have stage := fun token serving =>
    (sound.linked replica attach linked token serving).load inlet framed first
  cases next : receiver.load params.freshShardStore frame with
  | tailing follower =>
    refine sound.swap (ends follower next) answered rfl fun token serving => ?_
    rcases stage token serving with ⟨_, same, fed, tails, shipped⟩ | ⟨⟨loaded, same⟩, -⟩
    · cases next.symm.trans same
      exact ⟨fed, tails, shipped⟩
    · cases next.symm.trans same
  | detached =>
    refine sound.relink sound.intact (iff_of_true untailed_none before) ?_ ?_
    · intro _ found
      cases found
    · intro _ found
      cases found
  | waiting => exact absurd next (load_ne_waiting first)
  | loading loaded =>
    refine sound.relink sound.intact (iff_of_true (untailed_receiving rfl) before) ?_ ?_
    · rintro _ ⟨⟩
      exact ⟨loads loaded next, answered⟩
    · rintro _ ⟨⟩ token serving
      rcases stage token serving with ⟨_, same, -⟩ | ⟨-, further⟩
      · cases next.symm.trans same
      · rw [next] at further
        exact further

theorem Sound.deliver (sound : Sound params time fleet)
    (fresh : 0 < params.freshShardStore.databases) (linked : fleet.link replica = some attach)
    (framed : attach.frames = frame :: frames) (early : now ≤ time) :
    Sound params time (fleet.deliver params replica { attach with frames } frame now) := by
  have answered := sound.answered replica attach linked
  obtain ⟨owner, token, feed, sent, inlet⟩ := attach
  cases framed
  cases inlet with
  | tailing applied =>
    refine sound.tail early (sound.passive_of_tailing linked rfl) answered fun alive serving => ?_
    cases sound.linked replica _ linked alive serving with
    | tailing fed inlet tails shipped =>
      cases inlet
      exact ⟨fed, tails, shipped⟩
    | syncing _ inlet => cases inlet
    | ended _ inlet => cases inlet
    | resuming _ inlet => cases inlet
  | receiving receiver =>
    cases receiver with
    | waiting =>
      by_cases opens : ∃ replid cut, frame = .fullSync replid cut
      · obtain ⟨replid, cut, rfl⟩ := opens
        exact sound.receive fresh linked rfl rfl fun _ => ⟨replid, cut, rfl⟩
      have resumes : fleet.deliver params replica
          ⟨owner, token, feed, frames, .receiving .waiting⟩ frame now =
            (fleet.setPassive replica (fleet.store replica)).tail replica
              ⟨owner, token, feed, frames, .receiving .waiting⟩ (fleet.resume replica).offset
                frame now := by
        cases frame <;> first | rfl | exact absurd ⟨_, _, rfl⟩ opens
      rw [resumes]
      refine (sound.mark linked rfl).tail early (update_self ..) answered ?_
      intro alive serving
      rcases update_cases serving with ⟨-, wrong⟩ | ⟨other, serving⟩
      · cases wrong
      have kept : (fleet.setPassive replica (fleet.store replica)).store owner =
          fleet.store owner := update_of_ne other ..
      have marked : (fleet.setPassive replica (fleet.store replica)).store replica =
          { fleet.store replica with passive := true } := update_self ..
      rw [kept, marked]
      cases sound.linked replica _ linked alive serving with
      | resuming fed _ remembers shipped =>
        have untailed : Untailed (fleet.link replica) := linked ▸ untailed_receiving rfl
        have same : (fleet.resume replica).token = some (fleet.token owner) :=
          remembers.trans (congrArg some alive).symm
        exact ⟨fed, sound.remembered replica owner untailed same serving, shipped⟩
      | syncing _ inlet leads =>
        cases inlet
        obtain ⟨replid, cut, first⟩ := leads rfl
        exact absurd ⟨replid, cut, some.inj first⟩ opens
      | @ended sync tail cut loaded _ _ inlet leads framed =>
        cases inlet
        obtain ⟨replid, cut, first⟩ := leads rfl
        refine absurd ⟨replid, cut, ?_⟩ opens
        have heads := congrArg head? framed
        rw [head?_append, first] at heads
        exact some.inj heads
      | tailing _ inlet => cases inlet
    | tailing replica => exact absurd (sound.sized _ _ linked) not_false
    | _ =>
      have received := sound.receive fresh linked rfl rfl fun waits => by cases waits
      exact received

theorem Sound.drop (sound : Sound params time fleet) (replica : ν) :
    Sound params time (fleet.step params (.drop replica)) := by
  simp only [step]
  split
  · rename_i attach linked
    obtain ⟨owner, token, feed, sent, inlet⟩ := attach
    cases inlet with
    | tailing applied =>
      refine sound.lose (sound.passive_of_tailing linked rfl)
        (sound.answered replica _ linked) fun alive serving _ => ?_
      cases sound.linked replica _ linked alive serving with
      | tailing fed inlet tails shipped =>
        cases inlet
        exact tails
      | syncing _ inlet => cases inlet
      | ended _ inlet => cases inlet
      | resuming _ inlet => cases inlet
    | receiving receiver =>
      have before : Untailed (fleet.link replica) := linked ▸ untailed_receiving rfl
      refine sound.relink sound.intact (iff_of_true untailed_none before) ?_ ?_
      · intro _ found
        cases found
      · intro _ found
        cases found
  · exact sound

omit [EvictionPolicy E] in
/-- Who still knows a token is not the node that forgot its own. -/
theorem known_elsewhere {known : ℕ} (found : (update fleet.resume node .fresh other).token = some known) :
    other ≠ node ∧ (fleet.resume other).token = some known := by
  by_cases here : other = node
  · rw [here, update_self] at found
    cases found
  · rw [update_of_ne here] at found
    exact ⟨here, found⟩

theorem Sound.poll (sound : Sound params time fleet) (replica : ν) :
    Sound params time (fleet.step params (.poll replica)) := by
  simp only [step]
  split
  · exact sound
  rename_i unlinked
  refine ⟨sound.present, sound.sized, sound.minted, sound.distinct, fun node token found => ?_,
    sound.answered, sound.intact, fun node serving remembers => ?_,
    fun node owner untailed token serving => ?_, fun node attach linked token serving => ?_⟩
  · exact sound.recalled node token (known_elsewhere found).2
  · refine sound.forgetful node serving (remembers.imp_left fun held => ?_)
    obtain ⟨token, found⟩ := isSome_iff_exists.1 held
    exact isSome_iff_exists.2 ⟨token, (known_elsewhere found).2⟩
  · obtain ⟨other, token⟩ := known_elsewhere token
    dsimp only
    rw [update_of_ne other]
    exact sound.remembered node owner untailed token serving
  · have other : node ≠ replica := by
      rintro rfl
      cases unlinked.symm.trans linked
    dsimp only
    rw [update_of_ne other]
    exact sound.linked node attach linked token serving

omit [EvictionPolicy E] in
/-- A process that has just started. -/
theorem intact_loaded (formed : loaded.Formed) (fits : FitsStore loaded)
    (count : loaded.databases = params.freshShardStore.databases)
    (fresh : 0 < params.freshShardStore.databases) (cap : ℕ) (backlogBytes : Option ℕ) :
    Intact params { loaded with observed := some [], passive := false }
      (.withDisk cap 0 (backlogBytes.map fun maxBytes => { maxBytes })) where
  recorded :=
    { present := (count ▸ fresh : 0 < loaded.databases)
      formed := formed
      fits := fits
      observing := rfl
      images := fun _ member => absurd member not_mem_nil }
  spans := by
    refine ReplRing.spans_withDisk cap 0 fun backlog given => ?_
    obtain ⟨maxBytes, -, rfl⟩ := map_eq_some_iff.1 given
    rfl
  keeps := fun written => absurd rfl written
  count := count.symm

theorem Sound.restart (sound : Sound params time fleet) (fresh : 0 < params.freshShardStore.databases)
    (allowed : fleet.Allowed params (.restart node loaded cap backlogBytes)) :
    Sound params time (fleet.step params (.restart node loaded cap backlogBytes)) := by
  obtain ⟨formed, fits, count⟩ := allowed
  have intact := intact_loaded formed fits count fresh cap backlogBytes
  have linked : ∀ other attach, update fleet.link node none other = some attach →
      other ≠ node ∧ fleet.link other = some attach := by
    intro other attach found
    rcases update_cases found with ⟨-, nothing⟩ | away
    · cases nothing
    · exact away
  have older : ∀ owner token, token < fleet.minted → update fleet.token node fleet.minted owner = token →
        owner ≠ node ∧ fleet.token owner = token := by
    intro owner token below found
    rcases update_cases found with ⟨-, new⟩ | away
    · omega
    · exact away
  refine ⟨fun other => ?_, fun other attach found => ?_, fun other => ?_, fun left right same => ?_,
    fun other token found => ?_, fun other attach found => ?_, fun owner serving => ?_,
    fun other serving remembers => ?_, fun other owner untailed token serving => ?_,
    fun other attach found token serving => ?_⟩
  · simp only [step]
    by_cases here : other = node
    · rw [here, update_self]
      exact intact.recorded.present
    · rw [update_of_ne here]
      exact sound.present other
  · exact sound.sized other attach (linked other attach found).2
  · simp only [step]
    by_cases here : other = node
    · rw [here, update_self]
      exact Nat.lt_succ_self _
    · rw [update_of_ne here]
      exact (sound.minted other).trans (Nat.lt_succ_self _)
  · simp only [step] at same
    by_cases here : left = node
    · by_cases there : right = node
      · exact here.trans there.symm
      · rw [here, update_self, update_of_ne there] at same
        exact absurd same (sound.minted right).ne'
    · rw [update_of_ne here] at same
      obtain ⟨-, same⟩ := older right _ (sound.minted left) same.symm
      exact sound.distinct left right same.symm
  · exact (sound.recalled other token (known_elsewhere found).2).trans (Nat.lt_succ_self _)
  · obtain ⟨-, found⟩ := linked other attach found
    obtain ⟨below, issued⟩ := sound.answered other attach found
    refine ⟨below.trans (Nat.lt_succ_self _), fun owner same => ?_⟩
    exact issued owner (older owner _ below same).2
  · simp only [step] at serving ⊢
    by_cases here : owner = node
    · rw [here, update_self, update_self]
      exact intact
    rw [update_of_ne here] at serving
    rw [update_of_ne here, update_of_ne here]
    exact sound.intact owner serving
  · rcases remembers with held | tailed
    · obtain ⟨token, held⟩ := isSome_iff_exists.1 held
      obtain ⟨away, held⟩ := known_elsewhere held
      simp only [step] at serving
      rw [update_of_ne away] at serving
      exact sound.forgetful other serving (.inl (isSome_iff_exists.2 ⟨token, held⟩))
    simp only [step] at serving tailed
    by_cases here : other = node
    · rw [here, update_self] at tailed
      exact tailed untailed_none
    · rw [update_of_ne here] at serving tailed
      exact sound.forgetful other serving (.inr tailed)
  · obtain ⟨away, token⟩ := known_elsewhere token
    obtain ⟨aside, same⟩ := older owner _ (sound.recalled other _ token) rfl
    simp only [step] at untailed serving ⊢
    rw [update_of_ne away] at untailed
    rw [update_of_ne aside] at serving
    rw [update_of_ne aside, update_of_ne away, update_of_ne away]
    refine sound.remembered other owner untailed ?_ serving
    rw [token, same]
  · obtain ⟨away, found⟩ := linked other attach found
    obtain ⟨below, -⟩ := sound.answered other attach found
    obtain ⟨aside, same⟩ := older attach.owner _ below token
    simp only [step] at serving ⊢
    rw [update_of_ne aside] at serving
    rw [update_of_ne aside, update_of_ne away, update_of_ne away]
    exact sound.linked other attach found same serving

theorem Sound.step (sound : Sound params time fleet)
    (blank : ∀ place, params.freshShardStore.contents place = none)
    (fresh : 0 < params.freshShardStore.databases) (allowed : fleet.Allowed params event)
    (early : event.clock ≤ time) : Sound params time (fleet.step params event) := by
  cases event with
  | write node op => exact sound.write allowed
  | restart node loaded cap backlogBytes => exact sound.restart fresh allowed
  | dial replica owner now =>
    simp only [Fleet.step]
    split
    · exact sound
    · rename_i unlinked
      exact sound.dial blank unlinked early
  | chunk replica max => exact sound.chunk replica max
  | finish replica => exact sound.finish replica
  | drain replica send max => exact sound.drain replica send max
  | deliver replica now =>
    simp only [Fleet.step]
    split
    · rename_i attach linked
      split
      · exact sound
      · rename_i frame frames framed
        exact sound.deliver fresh linked framed early
    · exact sound
  | drop replica => exact sound.drop replica
  | poll replica => exact sound.poll replica

/-- Every process has just started, under a token of its own. -/
structure Started (params : FleetParams E) (fleet : Fleet E ν) : Prop where
  minted : ∀ node, fleet.token node < fleet.minted
  distinct : ∀ left right, fleet.token left = fleet.token right → left = right
  fresh : ∀ node, fleet.resume node = .fresh
  unlinked : ∀ node, fleet.link node = none
  intact : ∀ node, Intact params (fleet.store node) (fleet.ring node)

omit [DecidableEq ν] in
theorem Started.sound (started : Started params fleet) (time : ℕ) : Sound params time fleet := by
  have unknown : ∀ node token, (fleet.resume node).token ≠ some token := by
    intro node token found
    rw [started.fresh] at found
    cases found
  have untied : ∀ node attach, fleet.link node ≠ some attach := by
    intro node attach found
    rw [started.unlinked] at found
    cases found
  refine ⟨fun node => (started.intact node).recorded.present, fun node attach found => ?_,
    started.minted, started.distinct, fun node token found => ?_, fun node attach found => ?_,
    fun node _ => started.intact node, fun node _ remembers => ?_, fun node owner _ token => ?_,
    fun node attach found => ?_⟩
  · exact absurd found (untied node attach)
  · exact absurd found (unknown node token)
  · exact absurd found (untied node attach)
  · rcases remembers with held | tailed
    · obtain ⟨token, held⟩ := isSome_iff_exists.1 held
      exact unknown node token held
    · exact tailed fun attach _ found => absurd found (untied node attach)
  · exact absurd token (unknown node _)
  · exact absurd found (untied node attach)

/-- The store of a replica with the operations of an owner's ring above the offset it acknowledges
replayed on it. -/
def replayed (fleet : Fleet E ν) (replica owner : ν) (now : ℕ) : Replica E :=
  (⟨{ fleet.store replica with passive := true }, (fleet.resume replica).offset⟩ : Replica E).follow
    (((flushed (fleet.ring owner)).above (fleet.resume replica).offset).map
      fun op => (opToFrame op, now))

/-- Over every run of writes, starts, syncs, tails, drops and changes of roles whose steps meet the
condition: whenever an owner resumes a replica, the ring's operations above the acknowledged offset
bring the replica to the head, and then it is read like the owner. -/
theorem resumed_like_owner (started : fleet.Started params)
    (blank : ∀ place, params.freshShardStore.contents place = none)
    {events : List (FleetEvent E ν)} {replica owner : ν} {now time : ℕ}
    (meets : Guarded.Throughout (step params) (Allowed params) fleet
      (events ++ [.dial replica owner now]))
    (before : ∀ event ∈ events, event.clock ≤ time) (early : now ≤ time)
    (unlinked : (events.foldl (step params) fleet).link replica = none)
    (resumes : (events.foldl (step params) fleet).canResume owner
      ((events.foldl (step params) fleet).resume replica) = true) :
    ((events.foldl (step params) fleet).replayed replica owner now).applied =
        ((events.foldl (step params) fleet).ring owner).head ∧
      ∀ db key, ((events.foldl (step params) fleet).replayed replica owner now).store.peek db key time =
        ((events.foldl (step params) fleet).store owner).peek db key time := by
  obtain ⟨run, allowed, -⟩ := meets.of_append
  have fresh : 0 < params.freshShardStore.databases :=
    (started.intact replica).count ▸ (started.intact replica).recorded.present
  have sound : Sound params time (events.foldl (step params) fleet) :=
    (run.and_forall before).invariant
      (fun _ _ sound allowed => sound.step blank fresh allowed.1 allowed.2) (started.sound time)
  generalize events.foldl (step params) fleet = fleet at *
  obtain ⟨token, some, within, calm, serves⟩ := canResume_token resumes
  have serving := allowed token
  obtain ⟨intact, unstaged⟩ := (sound.intact owner serving).flushed
  have tails := sound.remembered replica owner (unlinked ▸ untailed_none) token serving
  have rest : (flushed (fleet.ring owner)).above (fleet.resume replica).offset =
      (numbered 0 (heard (fleet.store owner))).drop (fleet.resume replica).offset :=
    intact.spans.above intact.keeps unstaged calm serves (Nat.zero_le _) within
  obtain ⟨caught, further⟩ := tails.follow intact.recorded early
  rw [← rest] at caught further
  refine ⟨?_, fun db key => further.peek (caught.trans (Nat.zero_add _).symm) db key⟩
  have head := (sound.intact owner serving).spans.head
  rw [Nat.zero_add] at head
  exact caught.trans head.symm

def threeNodes : Fleet NullEviction (Fin 3) :=
  { store := fun _ => Op.watchedPair
    ring := fun _ => .withDisk 8 0 none
    token := Fin.val
    replicaPassive := fun _ => false
    resume := fun _ => .fresh
    link := fun _ => none
    minted := 3 }

def pairParams : FleetParams NullEviction := ⟨.withHooks 2 {}, fun _ => []⟩

theorem started_threeNodes : threeNodes.Started pairParams where
  minted := Fin.isLt
  distinct := fun _ _ => Fin.ext
  fresh := fun _ => rfl
  unlinked := fun _ => rfl
  intact := fun _ => by
    have empty := ShardStore.contents_withHooks 2 (⟨⟩ : NullEviction)
    refine @intact_loaded _ pairParams (.withHooks 2 {}) ?_ ?_ rfl (by decide) 8 none
    · intro place entry stored
      cases (empty place).symm.trans stored
    · intro place entry stored
      cases (empty place).symm.trans stored

/-- Node 1 syncs from node 0 and loses the link, and node 0 writes on. -/
def followedOn : List (FleetEvent NullEviction (Fin 3)) :=
  [.write 0 (.upsert 0 [97] (.bytes [1]) .clear 3), .dial 1 0 5, .chunk 1 8, .finish 1, .deliver 1 6,
    .deliver 1 6, .deliver 1 6, .drop 1, .write 0 (.upsert 1 [98] (.bytes [2]) .clear 7)]

theorem resumed_like_owner_followedOn : threeNodes.Started pairParams ∧ ∀ db key,
      ((followedOn.foldl (step pairParams) threeNodes).replayed 1 0 8).store.peek db key 9 =
        ((followedOn.foldl (step pairParams) threeNodes).store 0).peek db key 9 := by
  have short : FitsBytes [1] ∧ FitsBytes [2] := by decide
  have meets : Guarded.Throughout (step pairParams) (Allowed pairParams) threeNodes
      (followedOn ++ [.dial 1 0 8]) := by
    refine ⟨⟨⟨trivial, (fun _ same => by cases same), trivial⟩, trivial, fun event member => ?_, ?_⟩,
      fun token => (by cases token), trivial, trivial, trivial, trivial, trivial, trivial,
      ⟨⟨trivial, (fun _ same => by cases same), trivial⟩, trivial, fun event member => ?_, ?_⟩,
      fun _ => rfl, trivial⟩
    · cases mem_singleton.mp member
      exact ⟨by decide, by decide, short.1⟩
    · rintro (held | tailed)
      · cases held
      · exact absurd untailed_none tailed
    · cases mem_singleton.mp member
      exact ⟨by decide, by decide, short.2⟩
    · rintro (held | tailed)
      · cases held
      · exact absurd untailed_none tailed
  exact ⟨started_threeNodes, (resumed_like_owner started_threeNodes
    (ShardStore.contents_withHooks 2 _) meets (by decide) (by decide) rfl (by decide)).2⟩

/-- Node 1 has synced from node 0. Then node 0 becomes a replica of node 2, which holds nothing, and
an owner again. -/
def swappedSince : List (FleetEvent NullEviction (Fin 3)) :=
  [.write 0 (.upsert 0 [97] (.bytes [1]) .clear 3), .dial 1 0 5, .chunk 1 8, .finish 1, .deliver 1 6,
    .deliver 1 6, .deliver 1 6, .drop 1, .dial 0 2 7, .chunk 0 8, .finish 0, .deliver 0 8,
    .deliver 0 8, .drop 0]

/-- Node 0 resumes node 1 under the token of its start, with nothing to ship, and node 1 has a key
that node 0 lacks. -/
theorem not_like_owner_swappedSince :
    threeNodes.Started pairParams ∧ (swappedSince.foldl (step pairParams) threeNodes).canResume 0
        ((swappedSince.foldl (step pairParams) threeNodes).resume 1) = true ∧
      ((swappedSince.foldl (step pairParams) threeNodes).replayed 1 0 9).store.peek 0 [97] 9 =
        some ⟨.str .embStr [1], none⟩ ∧
      ((swappedSince.foldl (step pairParams) threeNodes).store 0).peek 0 [97] 9 = none :=
  ⟨started_threeNodes, by decide, by decide, by decide⟩

end Fleet

end IronCache.Repl
