import IronCache.Repl.Fleet

/-!
# Links to intact owners

How far a replica has come on its link, as long as the store of its owner was not swapped.
-/

namespace IronCache.Repl

open Store
open Function (update update_of_ne update_self)
open List

section Links

variable {E ν : Type}

/-- A frame that a pass of the tail ships. -/
def Shipped (log : List WriteEvent) (frame : Frame) : Prop :=
  ∃ op, Logged 0 log op ∧ frame = opToFrame op

variable {log : List WriteEvent}

variable {frame : Frame} {time : ℕ} {primary : ShardStore E} {replica : Replica E}

theorem Shipped.append (shipped : Shipped log frame) (more : List WriteEvent) :
    Shipped (log ++ more) frame := by
  obtain ⟨op, logged, rfl⟩ := shipped
  exact ⟨op, logged.append more, rfl⟩

private theorem shipped_of_mem (member : op ∈ numbered 0 log) : Shipped log (opToFrame op) := by
  obtain ⟨index, found⟩ := mem_iff_getElem?.mp member
  unfold numbered at found
  rw [getElem?_map, getElem?_zipIdx] at found
  obtain ⟨_, write, rfl⟩ := Option.map_eq_some_iff.mp found
  obtain ⟨event, logged, rfl⟩ := Option.map_eq_some_iff.mp write
  refine ⟨_, ⟨index, event, logged, ?_⟩, rfl⟩
  congr 1
  omega

theorem Shipped.not_fullSync : ¬Shipped log (.fullSync replid endOffset) := by
  rintro ⟨op, -, same⟩
  cases op <;> cases same

theorem Tails.congr {start applied : ℕ} {store next : ShardStore E}
    (tails : Tails time start primary ⟨store, applied⟩) (contents : next.contents = store.contents)
    (databases : next.databases = store.databases) (passive : next.passive = true) :
    Tails time start primary ⟨next, applied⟩ where
  databases := databases.trans tails.databases
  passive := passive
  above := tails.above
  below := tails.below
  follows := fun place => by
    have same : next.readings = store.readings := by
      unfold ShardStore.readings
      rw [contents]
    rw [same]
    exact tails.follows place

variable [EvictionPolicy E]

/-- Whatever comes over the tail, the replica leads to its primary afterwards. -/
theorem Tails.apply (tails : Tails time 0 primary replica) (recorded : Recorded primary)
    (shipped : Shipped (heard primary) frame) (early : now ≤ time)
    (applied : replica.apply frame now = (outcome, follower)) : Tails time 0 primary follower := by
  obtain ⟨op, ⟨index, event, found, rfl⟩, rfl⟩ := shipped
  by_cases next : index = replica.applied
  · subst next
    obtain ⟨store, same, tailed⟩ := tails.next recorded found early
    rw [Nat.zero_add, same] at applied
    cases applied
    exact tailed
  have same : (replica.apply (frameOf 0 index event) now).2 = replica :=
    Replica.apply_frameOf_other (Nat.zero_add _).symm next
  have kept : follower = replica := by
    rw [← same]
    exact (congrArg Prod.snd applied).symm
  rw [kept]
  exact tails

private theorem numbered_drop (found : log[index]? = some event) :
    (numbered 0 log).drop index = (observe event).at (index + 1) :: (numbered 0 log).drop (index + 1) := by
  have here : (numbered 0 log)[index]? = some ((observe event).at (index + 1)) := by
    unfold numbered
    rw [getElem?_map, getElem?_zipIdx, found]
    simp [Nat.add_comm]
  rw [drop_eq_getElem?_toList_append, here]
  rfl

/-- A replica that is given the rest of the log comes to its end. -/
theorem Tails.follow (tails : Tails time 0 primary replica) (recorded : Recorded primary)
    (early : now ≤ time) :
    let follower := replica.follow (((numbered 0 (heard primary)).drop replica.applied).map
      fun op => (opToFrame op, now))
    follower.applied = (heard primary).length ∧ Tails time 0 primary follower := by
  induction missing : (heard primary).length - replica.applied generalizing replica with
  | zero =>
    have caught : replica.applied = (heard primary).length := by
      have := tails.below
      omega
    have nothing : (numbered 0 (heard primary)).drop replica.applied = [] := by
      rw [caught, ← length_numbered 0, drop_length]
    rw [nothing]
    exact ⟨caught, tails⟩
  | succ missing ih =>
    obtain ⟨event, found⟩ : ∃ event, (heard primary)[replica.applied]? = some event := by
      have inside : replica.applied < (heard primary).length := by omega
      exact ⟨_, getElem?_eq_getElem inside⟩
    obtain ⟨store, applied, tailed⟩ := tails.next recorded found early
    have rest := ih tailed (by dsimp only; omega)
    rw [numbered_drop found]
    unfold Replica.follow at rest ⊢
    rw [map_cons, foldl_cons, applied]
    exact rest

end Links

def FleetEvent.clock {E ν : Type} : FleetEvent E ν → ℕ
  | .dial _ _ now | .deliver _ now => now
  | _ => 0

namespace Fleet

variable {E ν : Type} [EvictionPolicy E] [DecidableEq ν]

/-- The node is not in the tail of another. -/
def Untailed (link : Option (Attach E ν)) : Prop :=
  ∀ attach applied, link = some attach → attach.inlet ≠ .tailing applied

/-- The node keeps a token to resume with, or follows a tail. -/
def Remembers (fleet : Fleet E ν) (node : ν) : Prop :=
  (fleet.resume node).token.isSome ∨ ¬Untailed (fleet.link node)

/-- The condition: a node that is presented its own token was not attached as a replica since its
start, and no call changes the store of a node that keeps a token or follows a tail. Besides, calls
are of the funnel with well-formed input that fits the wire, and what a process loads is of the same
kind. -/
def Allowed (params : FleetParams E) (fleet : Fleet E ν) : FleetEvent E ν → Prop
  | .write node op =>
    op.Regular ∧ op.LeavesDeadline (fleet.store node) ∧
      (∀ event ∈ news (fleet.store node) op, FitsEvent event) ∧ (fleet.Remembers node →
          (op.step (fleet.store node)).contents = (fleet.store node).contents)
  | .restart _ loaded _ _ =>
    loaded.Formed ∧ FitsStore loaded ∧ loaded.databases = params.freshShardStore.databases
  | .dial replica owner _ => (fleet.resume replica).token = some (fleet.token owner) →
      fleet.replicaPassive owner = false
  | _ => True

/-- A store that was not swapped since the start: its ring spans the log of its writes. -/
structure Intact (params : FleetParams E) (store : ShardStore E) (ring : ReplRing) : Prop where
  recorded : Recorded store
  spans : ring.Spans 0 (heard store)
  keeps : ring.KeepsLast (heard store)
  count : params.freshShardStore.databases = store.databases

def NotSyncing (feed : Option Feed) : Prop := ∀ cut now cursor, feed ≠ some (.syncing cut now cursor)

/-- How far a replica has come on a link to an intact owner: it loads the sync, the end of the sync
is on its way, it is to be resumed, or it is in the tail. -/
inductive Stage (params : FleetParams E) (time : ℕ) (primary store : ShardStore E)
    (resume : ResumeState ℕ) (attach : Attach E ν) : Prop
  | syncing {cut now : ℕ} {cursor : SnapshotCursor} {loaded : ShardStore E} {receiver : Receiver E}
      (fed : attach.feed = some (.syncing cut now cursor)) (inlet : attach.inlet = .receiving receiver)
      (opens : receiver = .waiting → ∃ replid cut, attach.frames.head? = some (.fullSync replid cut))
      (loads : attach.frames.foldl (Receiver.load params.freshShardStore) receiver = .loading loaded)
      (syncs : Syncs time 0 primary cut now cursor loaded)
  | ended {loads tail : List Frame} {cut : ℕ} {loaded : ShardStore E} {receiver : Receiver E}
      (fed : NotSyncing attach.feed) (inlet : attach.inlet = .receiving receiver)
      (opens : receiver = .waiting → ∃ replid cut, loads.head? = some (.fullSync replid cut))
      (framed : attach.frames = loads ++ .syncEnd cut :: tail)
      (loads : loads.foldl (Receiver.load params.freshShardStore) receiver = .loading loaded)
      (tails : Tails time 0 primary ⟨{ loaded with passive := true }, cut⟩)
      (shipped : ∀ frame ∈ tail, Shipped (heard primary) frame)
  | resuming (fed : NotSyncing attach.feed) (inlet : attach.inlet = .receiving .waiting)
      (token : resume.token = some attach.token)
      (shipped : ∀ frame ∈ attach.frames, Shipped (heard primary) frame)
  | tailing {applied : ℕ} (fed : NotSyncing attach.feed) (inlet : attach.inlet = .tailing applied)
      (tails : Tails time 0 primary ⟨store, applied⟩)
      (shipped : ∀ frame ∈ attach.frames, Shipped (heard primary) frame)

/-- What a replica has loaded so far has databases. -/
def Sized : Inlet E → Prop
  | .receiving (.loading loaded) => 0 < loaded.databases
  | .receiving (.tailing _) => False
  | _ => True

/-- The token of a link was minted, and names no start but that of the link's owner. -/
def Answers (fleet : Fleet E ν) (attach : Attach E ν) : Prop :=
  attach.token < fleet.minted ∧ ∀ owner, fleet.token owner = attach.token → owner = attach.owner

structure Sound (params : FleetParams E) (time : ℕ) (fleet : Fleet E ν) : Prop where
  present : ∀ node, 0 < (fleet.store node).databases
  sized : ∀ node attach, fleet.link node = some attach → Sized attach.inlet
  minted : ∀ node, fleet.token node < fleet.minted
  distinct : ∀ left right, fleet.token left = fleet.token right → left = right
  recalled : ∀ node token, (fleet.resume node).token = some token → token < fleet.minted
  answered : ∀ node attach, fleet.link node = some attach → attach.token < fleet.minted ∧
    ∀ owner, fleet.token owner = attach.token → owner = attach.owner
  intact : ∀ owner, fleet.replicaPassive owner = false → Intact params (fleet.store owner) (fleet.ring owner)
  forgetful : ∀ node, fleet.replicaPassive node = false → ¬fleet.Remembers node
  remembered : ∀ node owner, Untailed (fleet.link node) →
    (fleet.resume node).token = some (fleet.token owner) → fleet.replicaPassive owner = false →
      Tails time 0 (fleet.store owner) ⟨{ fleet.store node with passive := true }, (fleet.resume node).offset⟩
  linked : ∀ node attach, fleet.link node = some attach → fleet.token attach.owner = attach.token →
    fleet.replicaPassive attach.owner = false →
      Stage params time (fleet.store attach.owner) (fleet.store node) (fleet.resume node) attach

variable {params : FleetParams E} {time : ℕ} {fleet : Fleet E ν}

variable {store : ShardStore E} {resume : ResumeState ℕ} {attach : Attach E ν}

variable {primary : ShardStore E} {ring : ReplRing} {replica owner : ν} {next : Attach E ν}

omit [DecidableEq ν] in
theorem Stage.extend (stage : Stage params time primary store resume attach)
    (written : Extends primary later events) : Stage params time later store resume attach := by
  have still : ∀ frame, Shipped (heard primary) frame → Shipped (heard later) frame := by
    rw [written.heard]
    exact fun frame shipped => shipped.append _
  cases stage with
  | syncing fed inlet opens loads syncs =>
    exact .syncing fed inlet opens loads (syncs.extend written)
  | ended fed inlet opens framed loads tails shipped =>
    exact .ended fed inlet opens framed loads (tails.extend written)
      fun frame member => still frame (shipped frame member)
  | resuming fed inlet token shipped =>
    exact .resuming fed inlet token fun frame member => still frame (shipped frame member)
  | tailing fed inlet tails shipped =>
    exact .tailing fed inlet (tails.extend written) fun frame member => still frame (shipped frame member)

omit [DecidableEq ν] in
/-- The replica's own store changes only if the replica does not rest on it. -/
theorem Stage.congr {next : ShardStore E} (stage : Stage params time primary store resume attach)
    (kept : ShardStore.Kept store next) (same : ¬Untailed (some attach) → next.contents = store.contents) :
    Stage params time primary next resume attach := by
  cases stage with
  | syncing fed inlet opens loads syncs => exact .syncing fed inlet opens loads syncs
  | ended fed inlet opens framed loads tails shipped =>
    exact .ended fed inlet opens framed loads tails shipped
  | resuming fed inlet token shipped => exact .resuming fed inlet token shipped
  | @tailing applied fed inlet tails shipped =>
    have tailed : ¬Untailed (some attach) := fun untailed => untailed attach applied rfl inlet
    exact .tailing fed inlet
      (tails.congr (same tailed) kept.databases (kept.passive.trans tails.passive)) shipped

omit [EvictionPolicy E] [DecidableEq ν] in
private theorem extends_refl (recorded : Recorded store) : Extends store store [] where
  recorded := recorded
  heard := (append_nil _).symm
  databases := rfl
  readings := rfl

theorem Intact.write (intact : Intact params store ring) (regular : op.Regular)
    (leaves : op.LeavesDeadline store) (fits : ∀ event ∈ news store op, FitsEvent event) :
    Extends store (op.step store) (news store op) ∧
      Intact params (op.step store) (ring.pushAll (news store op)) := by
  have keeps : op.KeepsTables store := by
    have funnelled := regular.funnelled
    cases op <;> trivial
  have written := intact.recorded.write regular.honest regular.formed ⟨leaves, keeps⟩ fits
  refine ⟨written, written.recorded, ?_, ?_, intact.count.trans written.databases.symm⟩
  · rw [written.heard]
    exact intact.spans.pushAll _
  · rw [written.heard]
    exact intact.keeps.pushAll _

theorem Sound.write (sound : Sound params time fleet) {node : ν} {op : Op}
    (allowed : fleet.Allowed params (.write node op)) :
    Sound params time (fleet.step params (.write node op)) := by
  obtain ⟨regular, leaves, fits, still⟩ := allowed
  have kept := op.kept_step (sound.present node) regular.honest
  -- The owner, seen from its replicas: it is untouched or it has written on.
  have owners : ∀ owner, fleet.replicaPassive owner = false → ∃ events,
      Extends (fleet.store owner) ((fleet.step params (.write node op)).store owner) events ∧
        Intact params ((fleet.step params (.write node op)).store owner)
          ((fleet.step params (.write node op)).ring owner) := by
    intro owner serving
    have intact := sound.intact owner serving
    by_cases here : owner = node
    · subst here
      obtain ⟨written, next⟩ := intact.write regular leaves fits
      refine ⟨news (fleet.store owner) op, ?_, ?_⟩
      · change Extends _ (update fleet.store owner _ owner) _
        rw [update_self]
        exact written
      · change Intact params (update fleet.store owner _ owner) (update fleet.ring owner _ owner)
        rw [update_self, update_self]
        exact next
    · refine ⟨[], ?_, ?_⟩
      · change Extends _ (update fleet.store node _ owner) _
        rw [update_of_ne here]
        exact extends_refl intact.recorded
      · change Intact params (update fleet.store node _ owner) (update fleet.ring node _ owner)
        rw [update_of_ne here, update_of_ne here]
        exact intact
  -- The replica: what it rests on is what it was.
  have replicas : ∀ replica, ShardStore.Kept (fleet.store replica)
      ((fleet.step params (.write node op)).store replica) ∧
        (fleet.Remembers replica → ((fleet.step params (.write node op)).store replica).contents =
          (fleet.store replica).contents) := by
    intro replica
    change ShardStore.Kept _ (update fleet.store node _ replica) ∧
      (_ → (update fleet.store node _ replica).contents = _)
    by_cases here : replica = node
    · subst here
      rw [update_self]
      exact ⟨kept, still⟩
    · rw [update_of_ne here]
      exact ⟨.refl _, fun _ => rfl⟩
  refine ⟨fun replica => ?_, sound.sized, sound.minted, sound.distinct, sound.recalled,
    sound.answered, fun owner serving => ?_, sound.forgetful,
    fun replica owner untailed token serving => ?_, fun replica attach linked token serving => ?_⟩
  · rw [(replicas replica).1.databases]
    exact sound.present replica
  · obtain ⟨_, -, intact⟩ := owners owner serving
    exact intact
  · obtain ⟨_, written, -⟩ := owners owner serving
    obtain ⟨kept, same⟩ := replicas replica
    have remembers : fleet.Remembers replica := .inl (Option.isSome_iff_exists.2 ⟨_, token⟩)
    have tails := (sound.remembered replica owner untailed token serving).extend written
    exact tails.congr (same remembers) kept.databases rfl
  · obtain ⟨_, written, -⟩ := owners attach.owner serving
    obtain ⟨kept, same⟩ := replicas replica
    refine ((sound.linked replica attach linked token serving).congr kept fun tailed => ?_).extend written
    exact same (.inr (linked ▸ tailed))

theorem update_cases {α : Type} {table : ν → α} {node other : ν} {value found : α}
    (seen : update table node value other = found) :
    other = node ∧ value = found ∨ other ≠ node ∧ table other = found := by
  by_cases here : other = node
  · subst here
    rw [update_self] at seen
    exact .inl ⟨rfl, seen⟩
  · rw [update_of_ne here] at seen
    exact .inr ⟨here, seen⟩

/-- A step that changes one link, outside the tail of its replica, and rings only in what they have
on disk. -/
theorem Sound.relink (sound : Sound params time fleet) {link : Option (Attach E ν)} {ring : ν → ReplRing}
    (rings : ∀ owner, fleet.replicaPassive owner = false → Intact params (fleet.store owner) (ring owner))
    (untailed : Untailed link ↔ Untailed (fleet.link replica))
    (answered : ∀ attach, link = some attach → Sized attach.inlet ∧ fleet.Answers attach)
    (stage : ∀ attach, link = some attach → fleet.token attach.owner = attach.token →
      fleet.replicaPassive attach.owner = false →
      Stage params time (fleet.store attach.owner) (fleet.store replica) (fleet.resume replica) attach) :
    Sound params time { fleet with ring := ring, link := update fleet.link replica link } := by
  have links : ∀ node, Untailed (update fleet.link replica link node) ↔ Untailed (fleet.link node) := by
    intro node
    by_cases here : node = replica
    · subst here
      rw [update_self]
      exact untailed
    · rw [update_of_ne here]
  refine ⟨sound.present, fun node attach linked => ?_, sound.minted, sound.distinct, sound.recalled,
    fun node attach linked => ?_, rings, fun node serving remembers => ?_,
    fun node owner still => sound.remembered node owner ((links node).1 still), fun node attach linked => ?_⟩
  · rcases update_cases linked with ⟨rfl, found⟩ | ⟨-, found⟩
    · exact (answered attach found).1
    · exact sound.sized node attach found
  · rcases update_cases linked with ⟨rfl, found⟩ | ⟨-, found⟩
    · exact (answered attach found).2
    · exact sound.answered node attach found
  · refine sound.forgetful node serving (remembers.imp_right fun tailed => ?_)
    exact fun still => tailed ((links node).2 still)
  · rcases update_cases linked with ⟨rfl, found⟩ | ⟨-, found⟩
    · exact stage attach found
    · exact sound.linked node attach found

section

omit [EvictionPolicy E] [DecidableEq ν]

theorem untailed_none : Untailed (none : Option (Attach E ν)) := by
  intro attach applied linked
  cases linked

theorem untailed_receiving (inlet : attach.inlet = .receiving receiver) : Untailed (some attach) := by
  intro other applied linked tailing
  cases linked
  cases inlet.symm.trans tailing

private theorem untailed_congr (inlet : next.inlet = attach.inlet) :
    Untailed (some next) ↔ Untailed (some attach) := by
  constructor
  · rintro untailed _ applied ⟨⟩ tailing
    exact untailed next applied rfl (inlet.trans tailing)
  · rintro untailed _ applied ⟨⟩ tailing
    exact untailed attach applied rfl (inlet.symm.trans tailing)

theorem Intact.flushed (intact : Intact params store ring) :
    Intact params store (Fleet.flushed ring) ∧ (Fleet.flushed ring).spillStage = [] := by
  unfold Fleet.flushed
  split
  · obtain ⟨spans, unstaged⟩ := intact.spans.flushSpill
    refine ⟨⟨intact.recorded, spans, fun written => ?_, intact.count⟩, unstaged⟩
    rw [ReplRing.ops_flushSpill]
    exact intact.keeps written
  · rename_i diskless
    exact ⟨intact, intact.spans.diskless (Option.not_isSome_iff_eq_none.mp diskless)⟩

theorem canResume_token (resumes : fleet.canResume owner resume = true) :
    resume.token = some (fleet.token owner) ∧ 0 < resume.offset ∧
      resume.offset ≤ (flushed (fleet.ring owner)).head ∧ (flushed (fleet.ring owner)).mustResync = false ∧
          (flushed (fleet.ring owner)).canServeFrom resume.offset = true := by
  simp only [canResume, ReplRing.needsResync, Bool.and_eq_true, decide_eq_true_eq,
    Bool.not_eq_true'] at resumes
  obtain ⟨⟨⟨⟨token, some⟩, within⟩, calm⟩, serves⟩ := resumes
  exact ⟨token, some, within, calm, serves⟩

private theorem drainAndShip_ring (cursor max : ℕ) :
    (drainAndShip send ring cursor max).ring = flushed ring := by
  unfold drainAndShip flushed
  dsimp only
  split_ifs <;> rfl

end

/-- The ring of one owner is brought into another shape. -/
theorem Sound.rings (sound : Sound params time fleet)
    (shaped : Intact params (fleet.store owner) (fleet.ring owner) → Intact params (fleet.store owner) ring) :
    ∀ node, fleet.replicaPassive node = false →
      Intact params (fleet.store node) (update fleet.ring owner ring node) := by
  intro node serving
  by_cases here : node = owner
  · subst here
    rw [update_self]
    exact shaped (sound.intact node serving)
  · rw [update_of_ne here]
    exact sound.intact node serving

theorem Sound.dial (sound : Sound params time fleet)
    (blank : ∀ place, params.freshShardStore.contents place = none) {now : ℕ}
    (unlinked : fleet.link replica = none) (early : now ≤ time) :
    Sound params time (fleet.dial params replica owner now) := by
  have rings : ∀ node, fleet.replicaPassive node = false →
      Intact params (fleet.store node) (update fleet.ring owner
        (if (fleet.resume replica).token = some (fleet.token owner) then flushed (fleet.ring owner)
          else fleet.ring owner) node) := by
    refine sound.rings fun intact => ?_
    split
    · exact intact.flushed.1
    · exact intact
  refine sound.relink rings ?_ ?_ ?_
  · rw [unlinked]
    split
    · exact iff_of_true (untailed_receiving rfl) untailed_none
    · exact iff_of_true (untailed_receiving rfl) untailed_none
  · rintro attach ⟨⟩
    split
    · exact ⟨trivial, sound.minted owner, fun other same => sound.distinct _ _ same⟩
    · exact ⟨trivial, sound.minted owner, fun other same => sound.distinct _ _ same⟩
  · rintro attach ⟨⟩
    split
    · rename_i resumes
      intro _ serving
      obtain ⟨token, -⟩ := canResume_token resumes
      exact .resuming (fun _ _ _ fed => by cases fed) rfl token (fun _ member => by cases member)
    intro _ serving
    have intact := rings owner serving
    rw [update_self] at intact
    refine .syncing rfl rfl (fun _ => ⟨_, _, rfl⟩) rfl ?_
    rw [intact.spans.head]
    exact syncs_start blank intact.count early

omit [EvictionPolicy E] [DecidableEq ν] in
private theorem serving_eq_some (serves : fleet.serving replica = some attach) :
    fleet.link replica = some attach ∧ fleet.token attach.owner = attach.token := by
  obtain ⟨linked, token⟩ := Option.filter_eq_some_iff.1 serves
  exact ⟨linked, of_decide_eq_true token⟩

omit [DecidableEq ν] in
theorem Stage.syncs (stage : Stage params time primary store resume attach)
    (fed : attach.feed = some (.syncing cut now cursor)) :
    ∃ loaded receiver, attach.inlet = .receiving receiver ∧
      (receiver = .waiting → ∃ replid cut, attach.frames.head? = some (.fullSync replid cut)) ∧
      attach.frames.foldl (Receiver.load params.freshShardStore) receiver = .loading loaded ∧
        Syncs time 0 primary cut now cursor loaded := by
  cases stage with
  | syncing feeds inlet opens loads syncs =>
    cases fed.symm.trans feeds
    exact ⟨_, _, inlet, opens, loads, syncs⟩
  | ended idle => exact absurd fed (idle _ _ _)
  | resuming idle => exact absurd fed (idle _ _ _)
  | tailing idle => exact absurd fed (idle _ _ _)

/-- The owner's end of a link goes on, and the replica's end stays. -/
theorem Sound.serve (sound : Sound params time fleet) {ring : ν → ReplRing}
    (serves : fleet.serving replica = some attach)
    (rings : ∀ owner, fleet.replicaPassive owner = false → Intact params (fleet.store owner) (ring owner))
    (owner : next.owner = attach.owner) (token : next.token = attach.token)
    (inlet : next.inlet = attach.inlet)
    (stage : Intact params (fleet.store attach.owner) (fleet.ring attach.owner) →
      Stage params time (fleet.store attach.owner) (fleet.store replica) (fleet.resume replica) attach →
      Stage params time (fleet.store attach.owner) (fleet.store replica) (fleet.resume replica) next) :
    Sound params time
      { fleet with ring := ring, link := update fleet.link replica (some next) } := by
  obtain ⟨linked, alive⟩ := serving_eq_some serves
  refine sound.relink rings ?_ ?_ ?_
  · rw [linked]
    exact untailed_congr inlet
  · rintro _ ⟨⟩
    unfold Answers
    rw [inlet, token, owner]
    exact ⟨sound.sized replica attach linked, sound.answered replica attach linked⟩
  · rintro _ ⟨⟩ - serving
    rw [owner] at serving ⊢
    exact stage (sound.intact _ serving) (sound.linked replica attach linked alive serving)

theorem Sound.chunk (sound : Sound params time fleet) (replica : ν) (max : ℕ) :
    Sound params time (fleet.step params (.chunk replica max)) := by
  simp only [step]
  split
  · rename_i attach serves
    split
    · rename_i cut now cursor fed
      split
      · exact sound
      refine sound.serve serves sound.intact rfl rfl rfl fun intact stage => ?_
      obtain ⟨loaded, receiver, inlet, opens, loads, syncs⟩ := stage.syncs fed
      obtain ⟨next, taken, further⟩ := syncs.chunk intact.recorded params.freshShardStore max
      refine .syncing rfl inlet (fun waiting => ?_) ?_ further
      · obtain ⟨replid, cut, first⟩ := opens waiting
        refine ⟨replid, cut, ?_⟩
        rw [head?_append, first]
        rfl
      · rw [foldl_append, loads, taken]
    · exact sound
  · exact sound

theorem Sound.finish (sound : Sound params time fleet) (replica : ν) :
    Sound params time (fleet.step params (.finish replica)) := by
  simp only [step]
  split
  · rename_i attach serves
    split
    · rename_i cut now cursor fed
      split
      · rename_i done
        refine sound.serve serves sound.intact rfl rfl rfl fun intact stage => ?_
        obtain ⟨loaded, receiver, inlet, opens, loads, syncs⟩ := stage.syncs fed
        exact .ended (fun _ _ _ feeds => by cases feeds) inlet opens rfl loads
          (syncs.finish intact.recorded done) fun _ member => absurd member not_mem_nil
      · exact sound
    · exact sound
  · exact sound

theorem Sound.drain (sound : Sound params time fleet) (replica : ν) (send : StreamOp → Bool)
    (max : ℕ) : Sound params time (fleet.step params (.drain replica send max)) := by
  simp only [step]
  split
  · rename_i attach serves
    split
    · rename_i cursor fed
      have rings : ∀ owner, fleet.replicaPassive owner = false →
          Intact params (fleet.store owner) (update fleet.ring attach.owner
            (drainAndShip send (fleet.ring attach.owner) cursor max).ring owner) := by
        rw [drainAndShip_ring]
        exact sound.rings fun intact => intact.flushed.1
      refine sound.serve serves rings rfl rfl rfl fun intact stage => ?_
      obtain ⟨-, part, -⟩ := intact.spans.drain (Nat.zero_le cursor) send max
      have shipped : ∀ frame ∈ (drainAndShip send (fleet.ring attach.owner) cursor max).frames.map
          opToFrame, Shipped (heard (fleet.store attach.owner)) frame := by
        intro frame member
        obtain ⟨op, sent, rfl⟩ := mem_map.mp member
        exact shipped_of_mem (mem_of_mem_drop (part.subset sent))
      have both : ∀ frames : List Frame,
          (∀ frame ∈ frames, Shipped (heard (fleet.store attach.owner)) frame) →
            ∀ frame ∈ frames ++ (drainAndShip send (fleet.ring attach.owner) cursor max).frames.map
              opToFrame, Shipped (heard (fleet.store attach.owner)) frame := by
        intro frames before frame member
        exact (mem_append.mp member).elim (before frame) (shipped frame)
      cases stage with
      | syncing feeds => cases fed.symm.trans feeds
      | @ended loads tail cut loaded receiver idle inlet opens framed loads tails before =>
        refine .ended (afterPass_ne _) inlet opens ?_ loads tails (both tail before)
        exact (congrArg (· ++ _) framed).trans (append_assoc _ _ _)
      | resuming idle inlet token before =>
        exact .resuming (afterPass_ne _) inlet token (both _ before)
      | tailing idle inlet tails before =>
        exact .tailing (afterPass_ne _) inlet tails (both _ before)
    · exact sound
  · exact sound

end Fleet

end IronCache.Repl
