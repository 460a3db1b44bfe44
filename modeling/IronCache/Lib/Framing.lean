import IronCache.Lib.Codec

/-!
# Logs of checksummed frames

A log of checksummed frames is replayed from the front until one is incomplete or damaged.
-/

namespace IronCache.Framing

open Codec

variable (checksum : List UInt8 → UInt32)

def headerLength : ℕ := 8

/-- A body behind its length and its checksum, four bytes each. -/
def frame (body : List UInt8) : List UInt8 :=
  leBytes 4 body.length ++ leBytes 4 (checksum body).toNat ++ body

/-- The body of the frame the bytes begin with, and what follows it; nothing if the header or
the body is cut short or the checksum does not match. -/
def unframe (bytes : List UInt8) : Option (List UInt8 × List UInt8) :=
  if bytes.length < headerLength then none
  else
    let length := leValue (bytes.take 4)
    let stored := leValue ((bytes.drop 4).take 4)
    let body := (bytes.drop headerLength).take length
    if bytes.length < headerLength + length then none
    else if (checksum body).toNat ≠ stored then none
    else some (body, bytes.drop (headerLength + length))

@[simp]
theorem length_frame (body : List UInt8) : (frame checksum body).length = headerLength + body.length := by
  simp [frame, headerLength]
  omega

theorem take_frame (body rest : List UInt8) :
    (frame checksum body ++ rest).take 4 = leBytes 4 body.length := by
  exact List.take_left' (length_leBytes 4 _)

theorem unframe_frame (fits : body.length < 256 ^ 4) (rest : List UInt8) :
    unframe checksum (frame checksum body ++ rest) = some (body, rest) := by
  have stored : ((frame checksum body ++ rest).drop 4).take 4 = leBytes 4 (checksum body).toNat := by
    exact List.take_left' (length_leBytes 4 _)
  have behind : (frame checksum body ++ rest).drop headerLength = body ++ rest := by
    rw [frame, List.append_assoc]
    exact List.drop_left' (by simp [headerLength])
  have after : (frame checksum body ++ rest).drop (headerLength + body.length) = rest :=
    List.drop_left' (length_frame checksum body)
  have long : (frame checksum body ++ rest).length = headerLength + body.length + rest.length := by
    rw [List.length_append, length_frame]
  unfold unframe
  dsimp only
  rw [take_frame, stored, leValue_leBytes fits, leValue_leBytes (checksum body).toNat_lt, behind,
    after, List.take_left' rfl, if_neg (by omega), if_neg (by omega), if_neg (by simp)]

/-- A frame cut short anywhere is not taken for one. -/
theorem unframe_torn (fits : body.length < 256 ^ 4) (short : count < (frame checksum body).length) :
    unframe checksum ((frame checksum body).take count) = none := by
  rw [length_frame] at short
  have long : ((frame checksum body).take count).length = count := by
    rw [List.length_take_of_le (by rw [length_frame]; omega)]
  unfold unframe
  rw [long]
  by_cases header : count < headerLength
  · rw [if_pos header]
  have start : ((frame checksum body).take count).take 4 = leBytes 4 body.length := by
    have whole := take_frame checksum body []
    rw [List.append_nil] at whole
    rw [List.take_take, min_eq_left (by simp only [headerLength] at header; omega), whole]
  rw [if_neg header, start, leValue_leBytes fits, if_pos short]

theorem unframe_nil : unframe checksum [] = none := rfl

section Replay

variable (decode : List UInt8 → Option ρ) (apply : σ → ρ → σ)

/-- Replay at most a number of frames: the state they lead to and the bytes they take. -/
def replayLoop : ℕ → σ → List UInt8 → σ × ℕ
  | 0, state, _ => (state, 0)
  | fuel + 1, state, bytes =>
    match unframe checksum bytes with
    | none => (state, 0)
    | some (body, rest) =>
      match decode body with
      | none => (state, 0)
      | some record =>
        let later := replayLoop fuel (apply state record) rest
        (later.1, headerLength + body.length + later.2)

/-- Replay as many frames as there are; no log has more of them than bytes. -/
def replay (state : σ) (bytes : List UInt8) : σ × ℕ :=
  replayLoop checksum decode apply bytes.length state bytes

def frames (encode : ρ → List UInt8) (records : List ρ) : List UInt8 :=
  records.flatMap fun record => frame checksum (encode record)

variable {checksum decode apply} {encode : ρ → List UInt8}

theorem replayLoop_frames (sound : ∀ record ∈ records,
      (encode record).length < 256 ^ 4 ∧ decode (encode record) = some record)
    (torn : unframe checksum tail = none) (enough : records.length ≤ fuel) (state : σ) :
    replayLoop checksum decode apply fuel state (frames checksum encode records ++ tail) =
      (records.foldl apply state, (frames checksum encode records).length) := by
  induction records generalizing fuel state with
  | nil =>
    cases fuel with
    | zero => rfl
    | succ fuel => simp [replayLoop, frames, torn]
  | cons record rest ih =>
    cases fuel with
    | zero => exact absurd enough (by simp)
    | succ fuel =>
      obtain ⟨fits, decoded⟩ := sound record (.head _)
      have later := ih (fun other member => sound other (.tail _ member))
        (Nat.le_of_succ_le_succ enough) (apply state record)
      have split : frames checksum encode (record :: rest) ++ tail =
          frame checksum (encode record) ++ (frames checksum encode rest ++ tail) := by
        simp [frames]
      rw [split, replayLoop, unframe_frame checksum fits]
      dsimp only
      rw [decoded]
      dsimp only
      rw [later]
      simp [frames]

theorem length_le_frames : records.length ≤ (frames checksum encode records).length := by
  induction records with
  | nil => exact Nat.zero_le _
  | cons record rest ih =>
    have split : (frames checksum encode (record :: rest)).length =
        headerLength + (encode record).length + (frames checksum encode rest).length := by
      simp [frames]
    rw [split, List.length_cons, headerLength]
    omega

/-- Replay takes every whole frame of sound records and stops at what is left of a torn one. -/
theorem replay_frames
    (sound : ∀ record ∈ records, (encode record).length < 256 ^ 4 ∧ decode (encode record) = some record)
    (torn : unframe checksum tail = none) :
    replay checksum decode apply state (frames checksum encode records ++ tail) =
      (records.foldl apply state, (frames checksum encode records).length) := by
  refine replayLoop_frames sound torn ?_ state
  rw [List.length_append]
  exact length_le_frames.trans (Nat.le_add_right _ _)

variable (checksum) in
/-- A batch of frames cut short at any byte is some whole frames and a torn rest. -/
theorem exists_take_frames (sound : ∀ record ∈ records, (encode record).length < 256 ^ 4) (count : ℕ) :
    ∃ whole tail, (frames checksum encode records).take count =
        frames checksum encode (records.take whole) ++ tail ∧
      unframe checksum tail = none := by
  induction records generalizing count with
  | nil => exact ⟨0, [], by simp [frames], unframe_nil checksum⟩
  | cons record rest ih =>
    have split : frames checksum encode (record :: rest) =
        frame checksum (encode record) ++ frames checksum encode rest := by
      simp [frames]
    have fits := sound record (.head _)
    rcases Nat.lt_or_ge count (frame checksum (encode record)).length with short | long
    · refine ⟨0, (frame checksum (encode record)).take count, ?_, unframe_torn checksum fits short⟩
      rw [split, List.take_append_of_le_length short.le]
      rfl
    obtain ⟨whole, tail, cut, torn⟩ := ih (fun other member => sound other (.tail _ member))
      (count - (frame checksum (encode record)).length)
    refine ⟨whole + 1, tail, ?_, torn⟩
    rw [split, List.take_append, List.take_of_length_le long, cut]
    simp [frames]

end Replay

end IronCache.Framing
