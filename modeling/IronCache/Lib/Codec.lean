import Mathlib.Data.List.TakeDrop
import Mathlib.Tactic.Ring
import Mathlib.Algebra.Order.Ring.Nat

/-!
# Byte codecs

Bounds-checked readers over a list of bytes, little-endian numbers, and rules by which a reader
undoes its writer.
-/

namespace IronCache.Codec

open List

/-- Reads a value off the front of the unread bytes, or fails. -/
abbrev Reader (α : Type) := StateT (List UInt8) Option α

/-- The reader takes exactly these bytes, whatever follows them, for this value. -/
def Reads (reader : Reader α) (bytes : List UInt8) (value : α) : Prop :=
  ∀ rest, reader.run (bytes ++ rest) = some (value, rest)

theorem Reads.pure (value : α) : Reads (Pure.pure value) [] value := fun _ => rfl

variable {first reader : Reader α}

theorem Reads.bind (head : Reads first bytes value) (tail : Reads (second value) more result) :
    Reads (first >>= second) (bytes ++ more) result := by
  intro rest
  rw [append_assoc, StateT.run_bind, head (more ++ rest)]
  exact tail rest

theorem Reads.last (reads : Reads first bytes value) (make : α → β) :
    Reads (first >>= fun value => Pure.pure (make value)) bytes (make value) := by
  rw [← append_nil bytes]
  exact reads.bind (Reads.pure (make value))

theorem Reads.map (reads : Reads reader bytes value) (f : α → β) : Reads (f <$> reader) bytes (f value) := by
  intro rest
  rw [StateT.run_map, reads rest]
  rfl

theorem Reads.run_eq (reads : Reads reader bytes value) : reader.run bytes = some (value, []) := by
  have read := reads []
  rwa [append_nil] at read

def take (count : ℕ) : Reader (List UInt8) := fun bytes =>
  if count ≤ bytes.length then some (bytes.take count, bytes.drop count) else none

theorem reads_take (bytes : List UInt8) : Reads (take bytes.length) bytes bytes := by
  intro rest
  change (if _ then _ else _) = _
  rw [if_pos (by simp), take_left' rfl, drop_left' rfl]

def leBytes : ℕ → ℕ → List UInt8
  | 0, _ => []
  | width + 1, value => UInt8.ofNat value :: leBytes width (value / 256)

def leValue : List UInt8 → ℕ
  | [] => 0
  | byte :: rest => byte.toNat + 256 * leValue rest

@[simp]
theorem length_leBytes (width value : ℕ) : (leBytes width value).length = width := by
  induction width generalizing value with
  | zero => rfl
  | succ width ih => simp [leBytes, ih]

theorem leValue_leBytes (fits : value < 256 ^ width) : leValue (leBytes width value) = value := by
  induction width generalizing value with
  | zero =>
    have zero : value = 0 := by simpa using fits
    exact zero.symm
  | succ width ih =>
    have smaller : value / 256 < 256 ^ width :=
      Nat.div_lt_of_lt_mul (by rwa [pow_succ, mul_comm] at fits)
    rw [leBytes, leValue, ih smaller, UInt8.toNat_ofNat']
    exact Nat.mod_add_div value 256

def le (width : ℕ) : Reader ℕ := leValue <$> take width

theorem reads_le (fits : value < 256 ^ width) : Reads (le width) (leBytes width value) value := by
  have read := (reads_take (leBytes width value)).map leValue
  rwa [length_leBytes, leValue_leBytes fits] at read

def byte : Reader UInt8 := fun bytes =>
  match bytes with
  | [] => none
  | head :: rest => some (head, rest)

theorem reads_byte : Reads byte [value] value := fun _ => rfl

def many (reader : Reader α) : ℕ → Reader (List α)
  | 0 => pure []
  | count + 1 => do
      let head ← reader
      let tail ← many reader count
      return head :: tail

theorem reads_many (reads : ∀ item ∈ items, Reads reader (put item) item) :
    Reads (many reader items.length) (items.flatMap put) items := by
  induction items with
  | nil => exact .pure []
  | cons head tail ih =>
    have rest := ih fun item member => reads item (.tail _ member)
    exact (reads head (.head _)).bind (rest.last (head :: ·))

/-- What a reader takes does not depend on what follows it. -/
def Steady (reader : Reader α) : Prop :=
  ∀ bytes value rest more, reader.run bytes = some (value, rest) →
    reader.run (bytes ++ more) = some (value, rest ++ more)

namespace Steady

theorem pure (value : α) : Steady (Pure.pure value) := by
  intro bytes result rest more taken
  cases taken
  rfl

theorem failure : Steady (Alternative.failure : Reader α) := by
  intro bytes value rest more taken
  cases taken

theorem bind (head : Steady first) (tail : ∀ value, Steady (second value)) : Steady (first >>= second) := by
  intro bytes result rest more taken
  rw [StateT.run_bind] at taken ⊢
  obtain ⟨⟨value, unread⟩, front, back⟩ := Option.bind_eq_some_iff.mp taken
  rw [head bytes value unread more front]
  exact tail value unread result rest more back

variable {reader : Reader α}

theorem last (steady : Steady reader) {f : α → β} :
    Steady (reader >>= fun value => Pure.pure (f value)) := steady.bind fun value => .pure (f value)

theorem map (steady : Steady reader) (f : α → β) : Steady (f <$> reader) := steady.last

theorem take (count : ℕ) : Steady (take count) := by
  intro bytes value rest more taken
  change (if count ≤ bytes.length then _ else none) = _ at taken
  change (if count ≤ (bytes ++ more).length then _ else none) = _
  split_ifs at taken with enough
  cases taken
  rw [if_pos (by rw [length_append]; omega), take_append_of_le_length enough, drop_append_of_le_length enough]

theorem byte : Steady byte := by
  intro bytes value rest more taken
  cases bytes with
  | nil => cases taken
  | cons head tail =>
    cases taken
    rfl

theorem le (width : ℕ) : Steady (le width) := (take width).map leValue

theorem many (steady : Steady reader) (count : ℕ) : Steady (many reader count) := by
  induction count with
  | zero => exact .pure []
  | succ count ih =>
    exact steady.bind fun head => ih.bind fun tail => .pure (head :: tail)

end Steady

/-- The value of an input that a reader takes to its end. -/
def readAll (reader : Reader α) (bytes : List UInt8) : Option α :=
  match reader.run bytes with
  | some (value, []) => some value
  | _ => none

theorem readAll_of_reads (reads : Reads reader bytes value) : readAll reader bytes = some value := by
  rw [readAll, reads.run_eq]

theorem readAll_append (reads : Reads reader bytes value) (extra : more ≠ []) :
    readAll reader (bytes ++ more) = none := by
  rw [readAll, reads more]
  cases more with
  | nil => exact absurd rfl extra
  | cons => rfl

/-- An input cut short is not taken for a shorter one: a reader that took it would leave the
rest of the whole input unread. -/
theorem readAll_cut (steady : Steady reader) (reads : Reads reader bytes value)
    (cut : part <+: bytes) (proper : part ≠ bytes) : readAll reader part = none := by
  obtain ⟨missing, rfl⟩ := cut
  unfold readAll
  split
  · rename_i other taken
    have whole := steady part other [] missing taken
    rw [reads.run_eq] at whole
    obtain ⟨-, none⟩ := Prod.mk.inj (Option.some.inj whole)
    rw [nil_append] at none
    exact absurd (by rw [← none, append_nil]) proper
  · rfl

end IronCache.Codec
