import IronCache.Raft.LogView
import IronCache.RaftNet.FileStorage

/-!
# Recovery after a crash

`Stores` relates a disk to the storage in memory. Every mutation keeps it, also one that a crash
cuts short.
-/

namespace IronCache.RaftNet

open Codec Framing Raft
open FileStorage
open Option

namespace Storage

variable {storage : MemStorage}

theorem truncateFrom_eq : storage.truncateFrom index =
      { storage with log := storage.log.take (index - storage.start) } := by
  have keep : (if index ≤ storage.start then 0 else index - storage.start) = index - storage.start := by
    split_ifs <;> omega
  unfold MemStorage.truncateFrom
  dsimp only
  rw [keep]
  split_ifs with short
  · rfl
  · rw [List.take_of_length_le (by omega)]

theorem compactTo_eq (above : storage.start ≤ index) (positive : index ≠ 0) : storage.compactTo index =
      { storage with
        log := storage.log.drop (index + 1 - storage.start), logStart := index + 1 } := by
  unfold MemStorage.compactTo
  rw [if_neg (by omega)]
  dsimp only
  congr 1
  rcases Nat.le_total (index - storage.start + 1) storage.log.length with short | long
  · congr 1
    omega
  · rw [min_eq_right long, List.drop_length, List.drop_of_length_le (by omega)]

theorem start_pos (storage : MemStorage) : 0 < storage.start := by
  unfold MemStorage.start
  split_ifs <;> omega

end Storage

/-- Every number of the mutation fits the machine type it has in the source, the start of the
log above a snapshot included. -/
def StorageOp.Fits : StorageOp → Prop
  | .setCurrentTerm term => term < 256 ^ 8
  | .setVotedFor vote => ∀ candidate ∈ vote, candidate < 256 ^ 8
  | .append entry => LogEntry.Fits entry
  | .truncateFrom index => index < 256 ^ 8
  | .appendEntries entries => ∀ entry ∈ entries, LogEntry.Fits entry
  | .saveSnapshot snapshot data =>
    snapshot.lastIncludedIndex + 1 < 256 ^ 8 ∧ snapshot.lastIncludedTerm < 256 ^ 8 ∧ data.length < 256 ^ 8
  | .compactTo index => index < 256 ^ 8
  | .saveConfigBaseline voters learners => FitsNodes voters ∧ FitsNodes learners

/-- The log is compacted to the latest snapshot only. -/
def CompactsAtSnapshot (mem : MemStorage) : StorageOp → Prop
  | .compactTo index => mem.snapMeta.map (·.lastIncludedIndex) = some index
  | _ => True

/-- The entries are numbered from where the log ends. -/
def ContinuesLog (mem : MemStorage) (entries : List LogEntry) : Prop :=
  ∀ position entry, entries[position]? = some entry → entry.index = mem.start + mem.log.length + position

/-- Appended entries continue the log, and a snapshot reaches at least to where the log
starts. -/
def Continues (mem : MemStorage) : StorageOp → Prop
  | .append entry => ContinuesLog mem [entry]
  | .appendEntries entries => ContinuesLog mem entries
  | .saveSnapshot snapshot _ => mem.start ≤ snapshot.lastIncludedIndex + 1
  | _ => True

/-- Each mutation of a sequence is admitted in the state it is carried out in. -/
def Along (Admits : MemStorage → StorageOp → Prop) (mem : MemStorage) : List StorageOp → Prop
  | [] => True
  | op :: rest => Admits mem op ∧ Along Admits (mem.write op) rest

theorem Along.append_iff {Admits : MemStorage → StorageOp → Prop} : Along Admits mem (first ++ second) ↔
      Along Admits mem first ∧ Along Admits (mem.writeAll first) second := by
  induction first generalizing mem with
  | nil => simp [Along]
  | cons op rest ih =>
    rw [List.cons_append, Along, Along, ih, and_assoc]
    rfl

/-- Every record is framed and read back. -/
def Sound (records : List Record) : Prop :=
  ∀ record ∈ records, (encodeBody record).length < 256 ^ 4 ∧ decodeBody (encodeBody record) = some record

theorem Sound.append (first : Sound records) (second : Sound more) : Sound (records ++ more) :=
  fun record member => (List.mem_append.mp member).elim (first record) (second record)

theorem Sound.take (sound : Sound records) (count : ℕ) : Sound (records.take count) :=
  fun record member => sound record (List.mem_of_mem_take member)

theorem encodeFramed_eq_some (encoded : encodeFramed body = some bytes) :
    body.length < 256 ^ 4 ∧ bytes = frame crc32 body := by
  unfold encodeFramed at encoded
  split_ifs at encoded with short
  exact ⟨short, (some.inj encoded).symm⟩

theorem mapM_encodeFrame (encoded : records.mapM encodeFrame = some written)
    (fits : ∀ record ∈ records, Record.Fits record) :
    written.flatten = frames crc32 encodeBody records ∧ Sound records := by
  induction records generalizing written with
  | nil =>
    cases encoded
    exact ⟨rfl, by simp [Sound]⟩
  | cons record rest ih =>
    rw [List.mapM_cons] at encoded
    obtain ⟨bytes, framed, remaining⟩ := bind_eq_some_iff.mp encoded
    obtain ⟨more, later, same⟩ := bind_eq_some_iff.mp remaining
    cases same
    obtain ⟨short, rfl⟩ := encodeFramed_eq_some framed
    obtain ⟨flat, sound⟩ := ih later fun other member => fits other (.tail _ member)
    refine ⟨by rw [List.flatten_cons, flat]; simp [frames], fun other member => ?_⟩
    rcases List.mem_cons.mp member with rfl | member
    · exact ⟨short, decodeBody_encodeBody (fits other (.head _))⟩
    · exact sound other member

/-- The records rebuild the log, the term and the vote of a storage, from any log start at or
above its own: an entry below the start is left out. -/
def Replays (records : List Record) (mem : MemStorage) : Prop :=
  ∀ seed : Mirror, seed.log = [] → seed.currentTerm = 0 → seed.votedFor = none → mem.start ≤ seed.start →
    records.foldl Mirror.apply seed =
      { seed with
        currentTerm := mem.currentTerm
        votedFor := mem.votedFor
        log := mem.log.drop (seed.start - mem.start) }

/-- The record's entry, if it has one, continues the log. -/
def ContinuesRecord (mem : MemStorage) : Record → Prop
  | .appendEntry entry => entry.index = mem.start + mem.log.length
  | _ => True

theorem apply_appendEntry {mirror : Mirror} (above : mirror.start ≤ entry.index) :
    mirror.apply (.appendEntry entry) = mirror.append entry := if_pos above

theorem Replays.concat (replays : Replays records mem) (continues : ContinuesRecord mem record) :
    Replays (records ++ [record]) (Mirror.apply mem record) := by
  intro seed empty noTerm noVote above
  cases record with
  | setTerm term =>
    rw [List.foldl_append, replays seed empty noTerm noVote above]
    rfl
  | setVote vote =>
    rw [List.foldl_append, replays seed empty noTerm noVote above]
    rfl
  | appendEntry entry =>
    replace continues : entry.index = mem.start + mem.log.length := continues
    rw [apply_appendEntry (by omega)] at above ⊢
    rw [List.foldl_append, replays seed empty noTerm noVote above]
    change (if seed.start ≤ entry.index then _ else _) = { seed with
      currentTerm := mem.currentTerm
      votedFor := mem.votedFor
      log := (mem.log ++ [entry]).drop (seed.start - mem.start) }
    split_ifs with kept
    · rw [List.drop_append_of_le_length (by omega)]
      rfl
    · rw [List.drop_of_length_le (by omega), List.drop_of_length_le (by simp; omega)]
  | truncate index =>
    have truncated : Mirror.apply mem (.truncate index) =
        { mem with log := mem.log.take (index - mem.start) } := Storage.truncateFrom_eq
    rw [truncated] at above ⊢
    replace above : mem.start ≤ seed.start := above
    rw [List.foldl_append, replays seed empty noTerm noVote above]
    have same : index - mem.start - (seed.start - mem.start) = index - seed.start := by omega
    refine Storage.truncateFrom_eq.trans ?_
    change { seed with
      currentTerm := mem.currentTerm
      votedFor := mem.votedFor
      log := (mem.log.drop (seed.start - mem.start)).take (index - seed.start) } = { seed with
      currentTerm := mem.currentTerm
      votedFor := mem.votedFor
      log := (mem.log.take (index - mem.start)).drop (seed.start - mem.start) }
    rw [List.drop_take, same]

theorem ContinuesLog.head (continues : ContinuesLog mem (entry :: entries)) :
    entry.index = mem.start + mem.log.length := continues 0 entry rfl

theorem ContinuesLog.tail (continues : ContinuesLog mem (entry :: entries)) :
    ContinuesLog (mem.append entry) entries := by
  intro position other found
  have next := continues (position + 1) other found
  change other.index = mem.start + (mem.log ++ [entry]).length + position
  rw [List.length_append, List.length_singleton]
  omega

private theorem foldl_appendEntry (continues : ContinuesLog mem entries) :
    (entries.map Record.appendEntry).foldl Mirror.apply mem = mem.appendEntries entries := by
  induction entries generalizing mem with
  | nil => simp [MemStorage.appendEntries]
  | cons entry rest ih =>
    have kept : Mirror.apply mem (.appendEntry entry) = mem.append entry :=
      apply_appendEntry (by rw [continues.head]; omega)
    rw [List.map_cons, List.foldl_cons, kept, ih continues.tail]
    simp [MemStorage.appendEntries, MemStorage.append]

theorem Replays.appendEntries (replays : Replays records mem) (continues : ContinuesLog mem entries) :
    Replays (records ++ entries.map .appendEntry) (mem.appendEntries entries) := by
  induction entries generalizing records mem with
  | nil => simpa [MemStorage.appendEntries] using replays
  | cons entry rest ih =>
    have kept : Mirror.apply mem (.appendEntry entry) = mem.append entry :=
      apply_appendEntry (by rw [continues.head]; omega)
    have continued : ContinuesRecord mem (.appendEntry entry) := continues.head
    have next : Replays (records ++ [.appendEntry entry]) (mem.append entry) :=
      kept ▸ replays.concat continued
    have all := ih next continues.tail
    simpa [MemStorage.appendEntries, MemStorage.append] using all

/-- A storage whose entries are numbered from its start, whose snapshot reaches its start and
whose numbers fit their machine types. -/
structure Regular (mem : MemStorage) : Prop where
  numbered : ∀ position entry, mem.log[position]? = some entry → entry.index = mem.start + position
  covered : mem.start ≤ mem.snapIndex + 1
  whole : mem.snapMeta = none → mem.logStart = 0 ∧ mem.snapData = []
  term : mem.currentTerm < 256 ^ 8
  vote : ∀ candidate ∈ mem.votedFor, candidate < 256 ^ 8
  sized : ∀ entry ∈ mem.log, LogEntry.Fits entry

theorem Regular.initial : Regular {} where
  numbered := by simp
  covered := by decide
  whole _ := ⟨rfl, rfl⟩
  term := by decide
  vote := by simp
  sized := by simp

theorem Regular.appendEntries (regular : Regular mem) (continues : ContinuesLog mem entries)
    (fits : ∀ entry ∈ entries, LogEntry.Fits entry) : Regular (mem.appendEntries entries) where
  numbered position entry found := by
    change (mem.log ++ entries)[position]? = some entry at found
    change entry.index = mem.start + position
    rcases Nat.lt_or_ge position mem.log.length with old | new
    · rw [List.getElem?_append_left old] at found
      exact regular.numbered position entry found
    rw [List.getElem?_append_right new] at found
    have numbered := continues _ entry found
    omega
  covered := regular.covered
  whole := regular.whole
  term := regular.term
  vote := regular.vote
  sized entry member :=
    (List.mem_append.mp member).elim (regular.sized entry) (fits entry)

theorem Regular.truncateFrom (regular : Regular mem) (index : ℕ) : Regular (mem.truncateFrom index) := by
  rw [Storage.truncateFrom_eq]
  exact {
    numbered := fun position entry found => by
      rw [List.getElem?_take] at found
      split_ifs at found
      exact regular.numbered position entry found
    covered := regular.covered
    whole := regular.whole
    term := regular.term
    vote := regular.vote
    sized := fun entry member => regular.sized entry (List.mem_of_mem_take member) }

/-- Moving the start of the log up to at most one above the snapshot. -/
theorem Regular.drop (regular : Regular mem) (above : mem.start ≤ start)
    (covered : start ≤ mem.snapIndex + 1) (found : mem.snapMeta = some snapshot) :
    Regular { mem with log := mem.log.drop (start - mem.start), logStart := start } := by
  have moved : MemStorage.start
      { mem with log := mem.log.drop (start - mem.start), logStart := start } = start := by
    have positive := Storage.start_pos mem
    unfold MemStorage.start
    rw [if_neg (by simp only; omega)]
  exact {
    numbered := fun position entry located => by
      rw [List.getElem?_drop] at located
      rw [moved, regular.numbered _ entry located]
      omega
    covered := by rw [moved]; exact covered
    whole := fun none => absurd (found.symm.trans none) (by simp)
    term := regular.term
    vote := regular.vote
    sized := fun entry member => regular.sized entry (List.mem_of_mem_drop member) }

theorem Regular.write (regular : Regular mem) (compacts : CompactsAtSnapshot mem op)
    (continues : Continues mem op) (fits : StorageOp.Fits op) : Regular (mem.write op) := by
  cases op with
  | setCurrentTerm term => exact { regular with term := fits }
  | setVotedFor vote => exact { regular with vote := fits }
  | append entry =>
    exact regular.appendEntries continues fun other member => by
      rw [List.mem_singleton.mp member]
      exact fits
  | truncateFrom index => exact regular.truncateFrom index
  | appendEntries entries => exact regular.appendEntries continues fits
  | saveSnapshot snapshot data =>
    exact { regular with covered := continues, whole := fun none => by cases none }
  | compactTo index =>
    obtain ⟨snapshot, found, rfl⟩ := map_eq_some_iff.mp compacts
    have reach : mem.snapIndex = snapshot.lastIncludedIndex := MemStorage.snapIndex_of_some found
    change Regular (mem.compactTo snapshot.lastIncludedIndex)
    by_cases noop : snapshot.lastIncludedIndex < mem.start ∨ snapshot.lastIncludedIndex = 0
    · rwa [MemStorage.compactTo, if_pos noop]
    · rw [Storage.compactTo_eq (by omega) (by omega)]
      exact regular.drop (by omega) (by omega) found
  | saveConfigBaseline voters learners => exact { regular with }

/-- The disk holds the storage: its log replays to it, and the files beside the log are the
snapshot and the membership baseline. -/
structure Stores (disk : Disk) (mem : MemStorage) : Prop where
  log : ∃ records, disk.log = frames crc32 encodeBody records ∧ Sound records ∧ Replays records mem
  snap : loadSnapshotFile disk.snap = mem.loadSnapshot
  cfg : loadConfigBaselineFile disk.cfg = mem.configBaseline
  regular : Regular mem

theorem Stores.initial : Stores {} {} where
  log := ⟨[], rfl, by simp [Sound], fun seed empty noTerm noVote _ => by
    cases seed
    simp_all⟩
  snap := rfl
  cfg := rfl
  regular := .initial

variable {disk : Disk} {storage next last : FileStorage}

section

variable (listed : recordsOf op = some records)
include listed

/-- The records of a mutation do to the mirror what the mutation does to the storage. -/
private theorem foldl_recordsOf (continues : Continues mem op) :
    records.foldl Mirror.apply mem = mem.write op := by
  cases op with
  | setCurrentTerm term => cases listed; rfl
  | setVotedFor vote => cases listed; rfl
  | append entry => cases listed; exact foldl_appendEntry continues
  | truncateFrom index => cases listed; rfl
  | appendEntries entries => cases listed; exact foldl_appendEntry continues
  | saveSnapshot | compactTo | saveConfigBaseline => cases listed

omit listed in
theorem Replays.write (replays : Replays records mem) (listed : recordsOf op = some more)
    (continues : Continues mem op) : Replays (records ++ more) (mem.write op) := by
  cases op with
  | setCurrentTerm term => cases listed; exact replays.concat trivial
  | setVotedFor vote => cases listed; exact replays.concat trivial
  | append entry => cases listed; exact replays.appendEntries continues
  | truncateFrom index => cases listed; exact replays.concat trivial
  | appendEntries entries => cases listed; exact replays.appendEntries continues
  | saveSnapshot | compactTo | saveConfigBaseline => cases listed

theorem fits_recordsOf (fits : StorageOp.Fits op) : ∀ record ∈ records, Record.Fits record := by
  cases op with
  | setCurrentTerm | setVotedFor | append | truncateFrom =>
    cases listed
    intro record member
    rw [List.mem_singleton.mp member]
    exact fits
  | appendEntries entries =>
    cases listed
    intro record member
    obtain ⟨entry, inside, rfl⟩ := List.mem_map.mp member
    exact fits entry inside
  | saveSnapshot | compactTo | saveConfigBaseline => cases listed

private theorem write_of_recordsOf (storage : FileStorage) :
    storage.write op = storage.appendRecords records := by
  cases op <;> cases listed <;> rfl

/-- Such a mutation leaves the files beside the log alone. -/
private theorem loadSnapshot_of_recordsOf (mem : MemStorage) : (mem.write op).loadSnapshot = mem.loadSnapshot ∧
      (mem.write op).configBaseline = mem.configBaseline := by
  cases op with
  | setCurrentTerm | setVotedFor | append | appendEntries => exact ⟨rfl, rfl⟩
  | truncateFrom index =>
    change (mem.truncateFrom index).loadSnapshot = _ ∧ (mem.truncateFrom index).configBaseline = _
    rw [Storage.truncateFrom_eq]
    exact ⟨rfl, rfl⟩
  | saveSnapshot | compactTo | saveConfigBaseline => cases listed

end

theorem Stores.appendFrames (stores : Stores disk mem) (listed : recordsOf op = some records)
    (continues : Continues mem op) (fits : StorageOp.Fits op) (sound : Sound records) :
    Stores { disk with log := disk.log ++ frames crc32 encodeBody records } (mem.write op) := by
  obtain ⟨earlier, same, earlierSound, replays⟩ := stores.log
  have beside := loadSnapshot_of_recordsOf listed mem
  have compacts : CompactsAtSnapshot mem op := by cases op <;> trivial
  exact {
    log := ⟨earlier ++ records, by simp [same, frames], earlierSound.append sound,
      replays.write listed continues⟩
    snap := stores.snap.trans beside.1.symm
    cfg := stores.cfg.trans beside.2.symm
    regular := stores.regular.write compacts continues fits }

theorem loadFile_encodeFramed (encoded : encodeFramed body = some file)
    (reads : Reads reader body value) : loadFile reader (some file) = some value := by
  obtain ⟨short, rfl⟩ := encodeFramed_eq_some encoded
  have taken := unframe_frame crc32 short []
  rw [List.append_nil] at taken
  unfold loadFile
  rw [bind_some, taken]
  dsimp only
  rw [reads.run_eq]

theorem Stores.saveSnapshot (stores : Stores disk mem)
    (encoded : encodeSnapshotFrame snapshot data = some file)
    (continues : Continues mem (.saveSnapshot snapshot data))
    (fits : StorageOp.Fits (.saveSnapshot snapshot data)) :
    Stores { disk with snap := some file } (mem.saveSnapshot snapshot data) where
  log := stores.log
  snap := loadFile_encodeFramed encoded ((reads_u64 (Nat.lt_of_succ_lt fits.1)).bind
    ((reads_u64 fits.2.1).bind ((reads_blob fits.2.2).last _)))
  cfg := stores.cfg
  regular := stores.regular.write (show CompactsAtSnapshot mem (.saveSnapshot snapshot data) from trivial)
     continues fits

theorem Stores.saveConfigBaseline (stores : Stores disk mem)
    (encoded : encodeConfigBaselineFrame voters learners = some file)
    (fits : StorageOp.Fits (.saveConfigBaseline voters learners)) :
    Stores { disk with cfg := some file } (mem.saveConfigBaseline voters learners) where
  log := stores.log
  snap := stores.snap
  cfg := loadFile_encodeFramed encoded ((reads_nodeSet fits.1).bind ((reads_nodeSet fits.2).last _))
  regular := { stores.regular with }

/-- A rewritten log replays to the storage it was written from. -/
theorem Replays.rewritten (regular : Regular mem) :
    Replays (.setTerm mem.currentTerm :: .setVote mem.votedFor :: mem.log.map .appendEntry)
      mem := by
  have blank : Replays [] { mem with currentTerm := 0, votedFor := none, log := [] } :=
    fun seed empty noTerm noVote _ => by
      cases seed
      simp_all
  have termed : Replays [.setTerm mem.currentTerm] { mem with votedFor := none, log := [] } :=
    blank.concat trivial
  have voted : Replays [.setTerm mem.currentTerm, .setVote mem.votedFor] { mem with log := [] } :=
    termed.concat trivial
  exact voted.appendEntries fun position entry found => by
    rw [regular.numbered position entry found]
    rfl

theorem Stores.compactTo (stores : Stores storage.disk storage.mirror)
    (compacts : CompactsAtSnapshot storage.mirror (.compactTo index))
    (fits : StorageOp.Fits (.compactTo index)) (written : storage.compactLogTo index = some next) :
    next.mirror = storage.mirror.compactTo index ∧ Stores next.disk next.mirror := by
  unfold compactLogTo at written
  split_ifs at written with noop
  · cases written
    exact ⟨by rw [MemStorage.compactTo, if_pos noop], stores⟩
  obtain ⟨bytes, encoded, same⟩ := bind_eq_some_iff.mp written
  cases same
  have regular : Regular (storage.mirror.compactTo index) :=
    stores.regular.write compacts trivial fits
  have fields := MemStorage.compactTo_fields storage.mirror index
  obtain ⟨flat, sound⟩ := mapM_encodeFrame encoded fun record member => by
    rcases List.mem_cons.mp member with rfl | member
    · exact regular.term
    rcases List.mem_cons.mp member with rfl | member
    · exact regular.vote
    obtain ⟨entry, inside, rfl⟩ := List.mem_map.mp member
    exact regular.sized entry inside
  exact ⟨rfl, {
    log := ⟨_, flat, sound, .rewritten regular⟩
    snap := by
      rw [MemStorage.loadSnapshot, fields.2.2.1, fields.2.2.2.1]
      exact stores.snap
    cfg := stores.cfg.trans fields.2.2.2.2.symm
    regular }⟩

theorem Stores.write (stores : Stores storage.disk storage.mirror)
    (compacts : CompactsAtSnapshot storage.mirror op) (continues : Continues storage.mirror op)
    (fits : StorageOp.Fits op) (written : storage.write op = some next) :
    next.mirror = storage.mirror.write op ∧ Stores next.disk next.mirror := by
  cases listed : recordsOf op with
  | some records =>
    rw [write_of_recordsOf listed] at written
    obtain ⟨bytes, encoded, same⟩ := bind_eq_some_iff.mp written
    cases same
    obtain ⟨flat, sound⟩ := mapM_encodeFrame encoded (fits_recordsOf listed fits)
    have mirrored := foldl_recordsOf listed continues
    refine ⟨mirrored, ?_⟩
    rw [flat, mirrored]
    exact stores.appendFrames listed continues fits sound
  | none =>
    cases op with
    | saveSnapshot snapshot data =>
      obtain ⟨file, encoded, same⟩ := bind_eq_some_iff.mp written
      cases same
      exact ⟨rfl, stores.saveSnapshot encoded continues fits⟩
    | compactTo index => exact stores.compactTo compacts fits written
    | saveConfigBaseline voters learners =>
      obtain ⟨file, encoded, same⟩ := bind_eq_some_iff.mp written
      cases same
      exact ⟨rfl, stores.saveConfigBaseline encoded fits⟩
    | setCurrentTerm | setVotedFor | append | truncateFrom | appendEntries => cases listed

theorem Stores.writeAll (stores : Stores storage.disk storage.mirror)
    (compacts : Along CompactsAtSnapshot storage.mirror ops) (continues : Along Continues storage.mirror ops)
    (fits : ∀ op ∈ ops, StorageOp.Fits op) (written : storage.writeAll ops = some last) :
    last.mirror = storage.mirror.writeAll ops ∧ Stores last.disk last.mirror := by
  induction ops generalizing storage with
  | nil =>
    cases written
    exact ⟨rfl, stores⟩
  | cons op rest ih =>
    obtain ⟨next, first, later⟩ := bind_eq_some_iff.mp written
    obtain ⟨mirrored, stored⟩ := stores.write compacts.1 continues.1 (fits op (.head _)) first
    obtain ⟨all, final⟩ := ih stored (mirrored ▸ compacts.2) (mirrored ▸ continues.2)
      (fun other member => fits other (.tail _ member)) later
    exact ⟨by rw [all, mirrored]; rfl, final⟩

/-- The storage, with its log cut to what lies above its snapshot. -/
def reopened (mem : MemStorage) : MemStorage :=
  match mem.snapMeta with
  | some snapshot =>
    { mem with
      log := mem.log.drop (snapshot.lastIncludedIndex + 1 - mem.start)
      logStart := snapshot.lastIncludedIndex + 1 }
  | none => mem

theorem reopened_of_some (found : mem.snapMeta = some snapshot) : reopened mem = { mem with
      log := mem.log.drop (snapshot.lastIncludedIndex + 1 - mem.start)
      logStart := snapshot.lastIncludedIndex + 1 } := by
  simp only [reopened, found]

theorem reopened_of_none (missing : mem.snapMeta = none) : reopened mem = mem := by
  simp only [reopened, missing]

@[simp]
theorem snapMeta_reopened : (reopened mem).snapMeta = mem.snapMeta := by
  unfold reopened
  split <;> rfl

theorem Stores.foldl_seed (stores : Stores disk mem) (replays : Replays records mem) :
    records.foldl Mirror.apply (seed disk) = reopened mem := by
  have covered := stores.regular.covered
  have loaded := stores.snap
  cases found : mem.snapMeta with
  | none =>
    rw [MemStorage.loadSnapshot_eq_none.mpr found] at loaded
    obtain ⟨start, blank⟩ := stores.regular.whole found
    have seeded : seed disk = { configBaseline := mem.configBaseline } := by
      simp only [seed, loaded, stores.cfg]
    have first : mem.start = 1 := by simp [MemStorage.start, start]
    rw [seeded, replays { configBaseline := mem.configBaseline } rfl rfl rfl first.le, first,
      reopened_of_none found]
    cases mem
    simp_all [MemStorage.start]
  | some snapshot =>
    rw [MemStorage.loadSnapshot_eq_some.mpr ⟨found, rfl⟩] at loaded
    rw [MemStorage.snapIndex_of_some found] at covered
    let seeded : Mirror :=
      { logStart := snapshot.lastIncludedIndex + 1
        snapMeta := some snapshot
        snapData := mem.snapData
        configBaseline := mem.configBaseline }
    have start : seeded.start = snapshot.lastIncludedIndex + 1 := rfl
    have same : seed disk = seeded := by
      simp only [seed, loaded, stores.cfg, seeded]
    rw [same, replays seeded rfl rfl rfl (start ▸ covered), start, reopened_of_some found]
    simp only [seeded, found]

/-- Opening a disk whose log ends in a torn record gives back the storage it holds, and cuts
the torn record off. -/
theorem Stores.openOn_torn (stores : Stores disk mem) (torn : unframe crc32 tail = none) :
    openOn { disk with log := disk.log ++ tail } = ⟨disk, reopened mem⟩ := by
  obtain ⟨records, same, sound, replays⟩ := stores.log
  have seeded : seed { disk with log := disk.log ++ tail } = seed disk :=
    rfl
  unfold openOn replayInto
  dsimp only
  rw [seeded, same, replay_frames sound torn, stores.foldl_seed replays, List.take_left' rfl, ← same]

/-- What a crash inside a mutation may leave of it: of a batch, any number of its entries. -/
inductive Part : StorageOp → List StorageOp → Prop where
  | nothing : Part op []
  | whole : Part op [op]
  | batch (count : ℕ) : Part (.appendEntries entries) [.appendEntries (entries.take count)]

/-- The disk holds the storage, but for a torn record at the end of its log. -/
def StoresTorn (disk : Disk) (mem : MemStorage) : Prop :=
  ∃ held tail, disk = { held with log := held.log ++ tail } ∧ unframe crc32 tail = none ∧ Stores held mem

theorem Stores.torn (stores : Stores disk mem) : StoresTorn disk mem :=
  ⟨disk, [], by simp, unframe_nil crc32, stores⟩

/-- The whole records of a log cut short are those of a part of the mutation. -/
private theorem exists_part (listed : recordsOf op = some records) (continues : Continues mem op)
    (fits : StorageOp.Fits op) : records.take count = [] ∨ ∃ part, Part op [part] ∧
      recordsOf part = some (records.take count) ∧ Continues mem part ∧
      StorageOp.Fits part := by
  cases op with
  | setCurrentTerm | setVotedFor | append | truncateFrom =>
    cases listed
    rcases count with _ | count
    · exact .inl rfl
    · exact .inr ⟨_, .whole, by simp [recordsOf], continues, fits⟩
  | appendEntries entries =>
    cases listed
    refine .inr ⟨.appendEntries (entries.take count), .batch count, ?_, ?_, ?_⟩
    · simp [recordsOf]
    · intro position entry found
      rw [List.getElem?_take] at found
      split_ifs at found
      exact continues position entry found
    · exact fun entry member => fits entry (List.mem_of_mem_take member)
  | saveSnapshot | compactTo | saveConfigBaseline => cases listed

theorem Stores.interrupted (stores : Stores storage.disk storage.mirror)
    (compacts : CompactsAtSnapshot storage.mirror op) (continues : Continues storage.mirror op)
    (fits : StorageOp.Fits op) (crash : storage.Interrupted op disk) :
    ∃ part, Part op part ∧ StoresTorn disk (storage.mirror.writeAll part) := by
  rcases crash with rfl | ⟨next, written, rfl⟩ | ⟨records, bytes, count, listed, encoded, rfl⟩
  · exact ⟨[], .nothing, stores.torn⟩
  · obtain ⟨mirrored, stored⟩ := stores.write compacts continues fits written
    rw [mirrored] at stored
    exact ⟨[op], .whole, stored.torn⟩
  · obtain ⟨flat, sound⟩ := mapM_encodeFrame encoded (fits_recordsOf listed fits)
    obtain ⟨whole, tail, cut, torn⟩ :=
      exists_take_frames crc32 (fun record member => (sound record member).1) count
    rw [flat, cut, ← List.append_assoc]
    rcases exists_part listed continues fits with empty | ⟨part, isPart, partly, more⟩
    · rw [empty]
      exact ⟨[], .nothing, storage.disk, tail, by simp [frames], torn, stores⟩
    · exact ⟨[part], isPart, _, tail, rfl, torn, stores.appendFrames partly more.1 more.2 (sound.take whole)⟩

/-- The two storages answer every read alike, at and above the start of the first one's log. -/
structure SameReads (left right : MemStorage) : Prop where
  currentTerm : left.currentTerm = right.currentTerm
  votedFor : left.votedFor = right.votedFor
  lastLogIndex : left.lastLogIndex = right.lastLogIndex
  lastLogTerm : left.lastLogTerm = right.lastLogTerm
  loadSnapshot : left.loadSnapshot = right.loadSnapshot
  termAt : ∀ index, left.logStartIndex ≤ index → left.termAt index = right.termAt index
  entryAt : ∀ index, left.logStartIndex ≤ index → left.entryAt index = right.entryAt index

theorem SameReads.refl (mem : MemStorage) : SameReads mem mem where
  currentTerm := rfl
  votedFor := rfl
  lastLogIndex := rfl
  lastLogTerm := rfl
  loadSnapshot := rfl
  termAt _ _ := rfl
  entryAt _ _ := rfl

/-- Reads depend on where the log starts, not on how the start is recorded. -/
theorem SameReads.of_start (start : MemStorage.start { mem with logStart := first } = mem.start) :
    SameReads { mem with logStart := first } mem := by
  have position : ∀ index, MemStorage.posOf { mem with logStart := first } index =
      mem.posOf index := fun index => by
    simp only [MemStorage.posOf, start]
  exact {
    currentTerm := rfl
    votedFor := rfl
    lastLogIndex := rfl
    lastLogTerm := rfl
    loadSnapshot := rfl
    termAt := fun index _ => by simp only [MemStorage.termAt, MemStorage.logTermAt, position]
    entryAt := fun index _ => by simp only [MemStorage.entryAt, position] }

/-- Opening compacts the log to the snapshot. -/
theorem Regular.sameReads (regular : Regular mem) :
    SameReads (RaftNet.reopened mem) (mem.compactTo (RaftNet.reopened mem).snapIndex) := by
  have reach : (RaftNet.reopened mem).snapIndex = mem.snapIndex := by
    simp [MemStorage.snapIndex]
  have covered := regular.covered
  have positive := Storage.start_pos mem
  rw [reach]
  cases found : mem.snapMeta with
  | none =>
    rw [MemStorage.snapIndex_of_none found, MemStorage.compactTo, if_pos (.inr rfl), reopened_of_none found]
    exact .refl mem
  | some snapshot =>
    rw [MemStorage.snapIndex_of_some found] at covered ⊢
    rw [reopened_of_some found]
    by_cases noop : snapshot.lastIncludedIndex < mem.start
    · have same : snapshot.lastIncludedIndex + 1 = mem.start := by omega
      rw [MemStorage.compactTo, if_pos (.inl noop), same, Nat.sub_self, List.drop_zero]
      refine .of_start ?_
      simp only [MemStorage.start]
      split_ifs <;> omega
    · rw [Storage.compactTo_eq (by omega) (by omega)]
      exact .refl _

/-- Recovery refines the storage in memory: whatever mutations were carried out and wherever a
crash cuts the next one short, the opened storage reads as one in memory that carried out the
same mutations and a part of the last one, compacted to its snapshot. -/
theorem recovery_refines (run : ({} : FileStorage).writeAll ops = some storage)
    (fits : ∀ done ∈ ops ++ [op], StorageOp.Fits done) (compacts : Along CompactsAtSnapshot {} (ops ++ [op]))
    (continues : Along Continues {} (ops ++ [op])) (crash : storage.Interrupted op disk) :
    ∃ part, Part op part ∧ SameReads (openOn disk).mirror
        ((({} : MemStorage).writeAll (ops ++ part)).compactTo (openOn disk).mirror.snapIndex) := by
  obtain ⟨compactsEarlier, compactsNow⟩ := Along.append_iff.mp compacts
  obtain ⟨continuesEarlier, continuesNow⟩ := Along.append_iff.mp continues
  obtain ⟨mirrored, stored⟩ := Stores.initial.writeAll compactsEarlier continuesEarlier
    (fun done member => fits done (List.mem_append_left _ member)) run
  rw [← mirrored] at compactsNow continuesNow
  obtain ⟨part, isPart, held, tail, rfl, torn, stores⟩ :=
    stored.interrupted compactsNow.1 continuesNow.1 (fits op (by simp)) crash
  have opened := congrArg mirror (stores.openOn_torn torn)
  refine ⟨part, isPart, ?_⟩
  rw [opened, MemStorage.writeAll_append, ← mirrored]
  exact stores.regular.sameReads

/-- A log compacted to its first entry, with a batch of two about to be appended. -/
def batchHistory : List StorageOp :=
  [.setCurrentTerm 1, .appendEntries [⟨1, 1, .noop⟩, ⟨1, 2, .bytes [9]⟩],
    .saveSnapshot ⟨1, 1⟩ [7], .compactTo 1]

def batchEntries : List LogEntry := [⟨1, 3, .noop⟩, ⟨1, 4, .configChange (.addVoter 4)⟩]

def batchStorage : FileStorage := (({} : FileStorage).writeAll batchHistory).getD {}

def batchFrames : List (List UInt8) := (batchEntries.map Record.appendEntry).filterMap encodeFrame

def batchDisk : Disk :=
  { batchStorage.disk with log := batchStorage.disk.log ++ batchFrames.flatten.take 40 }

theorem recovery_refines_tornBatch :
    (openOn batchDisk).mirror.lastLogIndex = 3 ∧ ∃ part, Part (.appendEntries batchEntries) part ∧
        SameReads (openOn batchDisk).mirror ((({} : MemStorage).writeAll (batchHistory ++ part)).compactTo
            (openOn batchDisk).mirror.snapIndex) := by
  have run : ({} : FileStorage).writeAll batchHistory = some batchStorage := by decide +kernel
  have framed : (batchEntries.map Record.appendEntry).mapM encodeFrame = some batchFrames := by
    decide +kernel
  have fits : ∀ done ∈ batchHistory ++ [.appendEntries batchEntries], StorageOp.Fits done := by
    simp [batchHistory, batchEntries, StorageOp.Fits, LogEntry.Fits, EntryPayload.Fits, MembershipChange.Fits]
  have first : ContinuesLog (({} : MemStorage).writeAll (batchHistory.take 1))
      [⟨1, 1, .noop⟩, ⟨1, 2, .bytes [9]⟩] := by
    intro position entry found
    rcases position with _ | _ | position <;> simp at found <;> rw [← found] <;> rfl
  have second : ContinuesLog (({} : MemStorage).writeAll batchHistory) batchEntries := by
    intro position entry found
    rcases position with _ | _ | position <;> simp [batchEntries] at found <;> rw [← found] <;> rfl
  have reaches : (1 : ℕ) ≤ 1 + 1 := by decide
  exact ⟨by decide +kernel, recovery_refines run fits ⟨trivial, trivial, trivial, rfl, trivial, trivial⟩
    ⟨trivial, first, reaches, trivial, second, trivial⟩ (.inr (.inr ⟨_, batchFrames, 40, rfl, framed, rfl⟩))⟩

/-- An entry appended below the start of the log is kept in memory and left out on disk, so that
without the condition on appended entries recovery does not refine the storage in memory. -/
theorem not_refines_append_below_start :
    ∃ ops op storage disk, ({} : FileStorage).writeAll ops = some storage ∧
      (∀ done ∈ ops ++ [op], StorageOp.Fits done) ∧
      Along CompactsAtSnapshot {} (ops ++ [op]) ∧ storage.Interrupted op disk ∧
      ¬ ∃ part, Part op part ∧ SameReads (openOn disk).mirror
          ((({} : MemStorage).writeAll (ops ++ part)).compactTo
            (openOn disk).mirror.snapIndex) := by
  let ops : List StorageOp := [.append ⟨1, 1, .noop⟩, .append ⟨1, 2, .noop⟩,
    .saveSnapshot ⟨2, 1⟩ [], .compactTo 2, .append ⟨1, 1, .noop⟩]
  let storage := (({} : FileStorage).writeAll ops).getD {}
  refine ⟨ops, .setCurrentTerm 1, storage, storage.disk, by decide +kernel, ?_,
    ⟨trivial, trivial, trivial, rfl, trivial, trivial, trivial⟩, .inl rfl, ?_⟩
  · simp [ops, StorageOp.Fits, LogEntry.Fits, EntryPayload.Fits]
  · rintro ⟨part, isPart, same⟩
    cases isPart with
    | nothing => exact absurd same.lastLogIndex (by decide +kernel)
    | whole => exact absurd same.lastLogIndex (by decide +kernel)

end IronCache.RaftNet
