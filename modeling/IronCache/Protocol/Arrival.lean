import IronCache.Protocol.Decode

/-!
# How requests arrive

What the decoder answers on the first bytes of a connection stands when more arrive, save for one
length limit.
-/

namespace IronCache.Protocol

open Incremental
open List

variable {limits : Limits}

theorem steady_bulkHeader : Steady (bulkHeader limits unexpected) := by
  refine Steady.byte.bind fun marker => .ite _ (.fail _) (Steady.line.bind fun header => ?_)
  cases parseI64 header with
  | none => exact .fail _
  | some length => exact .ite _ (.fail _) (.pure _)

theorem steady_argument : Steady (argument limits) := by
  refine steady_bulkHeader.bind fun length => (Steady.take length).bind fun payload => ?_
  exact (Steady.take 2).bind fun ending => .ite _ (.fail _) (.pure _)

theorem steady_attributeElement : Steady (attributeElement limits) := by
  refine steady_bulkHeader.bind fun length => (Steady.take length).bind fun payload => ?_
  exact (Steady.take 2).bind fun ending => .pure _

theorem steady_multibulkBody : Steady (multibulkBody limits) := by
  refine Steady.line.bind fun header => ?_
  cases parseI64 header with
  | none => exact .fail _
  | some count =>
    refine .ite _ (.fail _) (.ite _ (.pure _) ?_)
    exact (steady_argument.times _).bind fun args => .pure _

theorem steady_attributeBody : Steady (attributeBody limits) := by
  refine Steady.line.bind fun header => ?_
  cases parseI64 header with
  | none => exact .fail _
  | some pairs =>
    refine .ite _ (.fail _) (.ite _ (.fail _) (.ite _ (.fail _) ?_))
    exact (steady_attributeElement.times _).bind fun _ => .pure _

/-- The text of a line that ends in LF: a CR before the LF belongs to the end. -/
def lineText (line : Bytes) : Bytes :=
  if line.getLast? = some 13 then line.dropLast else line

/-- What an inline line of this text gives. -/
def inlineAnswer (limits : Limits) (text rest : Bytes) : Outcome Stop (Option Request) :=
  if limits.maxInlineLen < text.length then .fail (protocolError "too big inline request")
  else match splitInline text with
    | .error reply => .fail (.error reply)
    | .ok [] => .done none rest
    | .ok (command :: args) => .done (some (command :: args)) rest

private theorem lineText_isPrefix : lineText line <+: line := by
  unfold lineText
  split_ifs
  · exact dropLast_prefix line
  · exact prefix_rfl

variable {line text rest : Bytes}

private theorem findCrlfOrLf_line (unbroken : 10 ∉ line) :
    findCrlfOrLf (line ++ 10 :: rest) = some ((lineText line).length, line.length + 1) := by
  have found : (line ++ 10 :: rest).findIdx? (· == 10) = some line.length := by
    rw [findIdx?_append, findIdx?_eq_none_iff.mpr]
    · simp [findIdx?_cons]
    · intro byte member
      have different : byte ≠ 10 := fun same => unbroken (same ▸ member)
      simpa using different
  simp only [findCrlfOrLf, found, Option.map_some, lineText]
  rcases eq_nil_or_concat line with rfl | ⟨start, last, rfl⟩
  · simp
  by_cases carriage : last = 13
  · simp [carriage]
  · simp [carriage]

theorem decodeInline_line (unbroken : 10 ∉ line) :
    decodeInline limits (line ++ 10 :: rest) = inlineAnswer limits (lineText line) rest := by
  have text : (line ++ 10 :: rest).take (lineText line).length = lineText line :=
    (prefix_iff_eq_take.mp (lineText_isPrefix.trans (prefix_append ..))).symm
  have behind : (line ++ 10 :: rest).drop (line.length + 1) = rest := by
    rw [← singleton_append, ← append_assoc]
    exact drop_left' (by simp)
  simp only [decodeInline, findCrlfOrLf_line unbroken, text, behind]
  rfl

theorem decodeInline_of_unbroken (unbroken : 10 ∉ input) : decodeInline limits input =
      if limits.maxInlineLen < input.length then .fail (protocolError "too big inline request")
      else .more := by
  have missing : findCrlfOrLf input = none := by
    rw [findCrlfOrLf, findIdx?_eq_none_iff.mpr]
    · rfl
    · intro byte member
      have different : byte ≠ 10 := fun same => unbroken (same ▸ member)
      simpa using different
  simp only [decodeInline, missing]

theorem inlineAnswer_eq_done (done : inlineAnswer limits text rest = .done answer left) :
    left = rest ∧ ∀ other, inlineAnswer limits text other = .done answer other := by
  unfold inlineAnswer at done ⊢
  split_ifs at done ⊢
  cases split : splitInline text with
  | error reply => simp [split] at done
  | ok args =>
    cases args with
    | nil =>
      simp only [split, Outcome.done.injEq] at done
      obtain ⟨rfl, rfl⟩ := done
      exact ⟨rfl, fun _ => rfl⟩
    | cons command args =>
      simp only [split, Outcome.done.injEq] at done
      obtain ⟨rfl, rfl⟩ := done
      exact ⟨rfl, fun _ => rfl⟩

private theorem inlineAnswer_eq_fail (failed : inlineAnswer limits text rest = .fail stop) :
    inlineAnswer limits text other = .fail stop := by
  unfold inlineAnswer at failed ⊢
  split_ifs at failed ⊢
  · exact failed
  cases split : splitInline text with
  | error reply => simpa [split] using failed
  | ok args => cases args <;> simp [split] at failed

theorem exists_line_of_done (done : decodeInline limits input = .done answer rest) :
    ∃ line, input = line ++ 10 :: rest ∧ 10 ∉ line ∧
      inlineAnswer limits (lineText line) rest = .done answer rest := by
  by_cases broken : 10 ∈ input
  · obtain ⟨line, others, rfl, unbroken⟩ := eq_append_cons_of_mem broken
    rw [decodeInline_line unbroken] at done
    obtain ⟨rfl, -⟩ := inlineAnswer_eq_done done
    exact ⟨line, rfl, unbroken, done⟩
  · rw [decodeInline_of_unbroken broken] at done
    split_ifs at done

private theorem local_decodeInline : Local (decodeInline limits) := by
  intro input answer rest done
  obtain ⟨line, rfl, unbroken, answered⟩ := exists_line_of_done done
  obtain ⟨-, always⟩ := inlineAnswer_eq_done answered
  refine ⟨line ++ [10], by simp, fun other => ?_⟩
  rw [append_assoc]
  exact (decodeInline_line unbroken).trans (always other)

private theorem advances_decodeInline : Advances (decodeInline limits) := by
  intro input answer rest done
  obtain ⟨line, rfl, -, -⟩ := exists_line_of_done done
  simp only [length_append, length_cons]
  omega

/-- An inline line without its LF whose length passes the limit by the CR that may belong to its
end. -/
structure OnEdge (limits : Limits) (line : Bytes) : Prop where
  isInline : line.head? ≠ some 42 ∧ line.head? ≠ some 124
  unbroken : 10 ∉ line
  length : line.length = limits.maxInlineLen + 1
  carriage : line.getLast? = some 13

private theorem lineText_length_of_not_edge (long : limits.maxInlineLen < line.length)
    (offEdge : ¬(line.length = limits.maxInlineLen + 1 ∧ line.getLast? = some 13)) :
    limits.maxInlineLen < (lineText (line ++ more)).length := by
  unfold lineText
  split_ifs with carriage
  · rw [length_dropLast, length_append]
    rcases eq_nil_or_concat more with rfl | ⟨_, _, rfl⟩
    · rw [append_nil] at carriage
      have : line.length ≠ limits.maxInlineLen + 1 := fun same => offEdge ⟨same, carriage⟩
      omega
    · simp only [length_concat]
      omega
  · rw [length_append]
    omega

variable {input : Bytes}

private theorem firmAt_decodeInline
    (offEdge : ¬(10 ∉ input ∧ input.length = limits.maxInlineLen + 1 ∧ input.getLast? = some 13)) :
    FirmAt (decodeInline limits) input := by
  intro stop failed later
  by_cases broken : 10 ∈ input
  · obtain ⟨line, others, rfl, unbroken⟩ := eq_append_cons_of_mem broken
    rw [decodeInline_line unbroken] at failed
    rw [append_assoc, cons_append, decodeInline_line unbroken]
    exact inlineAnswer_eq_fail failed
  rw [decodeInline_of_unbroken broken] at failed
  split_ifs at failed with long
  by_cases laterBroken : 10 ∈ later
  · obtain ⟨more, others, rfl, unbroken⟩ := eq_append_cons_of_mem laterBroken
    rw [← append_assoc, decodeInline_line (by simp [broken, unbroken]), inlineAnswer,
      if_pos (lineText_length_of_not_edge long fun edge => offEdge ⟨broken, edge⟩)]
    exact failed
  · rw [decodeInline_of_unbroken (by simp [broken, laterBroken]), if_pos (by rw [length_append]; omega)]
    exact failed

theorem steady_decodeMultibulk : Steady (decodeMultibulk limits) :=
  Steady.byte.bind fun _ => steady_multibulkBody

theorem steady_decodeAndSkipAttribute : Steady (decodeAndSkipAttribute limits) :=
  Steady.byte.bind fun _ => steady_attributeBody

private theorem local_frameOf (first : UInt8) : Local (frameOf limits first) := by
  unfold frameOf
  split_ifs
  · exact steady_decodeMultibulk.isLocal
  · exact steady_decodeAndSkipAttribute.isLocal
  · exact local_decodeInline

theorem advances_frameOf (first : UInt8) : Advances (frameOf limits first) := by
  unfold frameOf
  split_ifs
  · exact Advances.byte_bind fun _ => steady_multibulkBody.isLocal
  · exact Advances.byte_bind fun _ => steady_attributeBody.isLocal
  · exact advances_decodeInline

theorem local_decodeFrame : Local (decodeFrame limits) :=
  Local.peek local_frameOf advances_frameOf

theorem advances_decodeFrame : Advances (decodeFrame limits) :=
  Advances.peek advances_frameOf

theorem firmAt_decodeFrame (offEdge : ¬OnEdge limits input) : FirmAt (decodeFrame limits) input := by
  cases input with
  | nil =>
    intro error failed
    cases failed
  | cons first others =>
    apply FirmAt.peek
    unfold frameOf
    split_ifs with multibulk annotated
    · exact steady_decodeMultibulk.firm _
    · exact steady_decodeAndSkipAttribute.firm _
    · refine firmAt_decodeInline fun edge => offEdge ⟨?_, edge.1, edge.2.1, edge.2.2⟩
      simp [multibulk, annotated]

end IronCache.Protocol
