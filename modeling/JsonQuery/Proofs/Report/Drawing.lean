import JsonQuery.Proofs.Text.Within
import JsonQuery.Report

/-! What a drawing shows. For a span of whole characters there always is one: the line on which
the span begins, a caret under its first character, and a tilde under each of the others on that
line. -/
namespace JsonQuery.Report

def firstLine (cs : List Char) : List Char := cs.takeWhile (· != '\n')

def lastLine (cs : List Char) : List Char := (cs.reverse.takeWhile (· != '\n')).reverse

theorem not_mem_firstLine (cs : List Char) : '\n' ∉ firstLine cs := by
  intro member
  have other := List.all_eq_true.mp List.all_takeWhile _ member
  simp at other

/-- What comes before the last line is empty or ends a line. -/
theorem exists_append_lastLine (cs : List Char) :
    ∃ lines, cs = lines ++ lastLine cs ∧ (lines = [] ∨ ∃ above, lines = above ++ ['\n']) := by
  refine ⟨(cs.reverse.dropWhile (· != '\n')).reverse, ?_, ?_⟩
  · rw [lastLine, ← List.reverse_append, List.takeWhile_append_dropWhile, List.reverse_reverse]
  · cases ended : cs.reverse.dropWhile (· != '\n') with
    | nil => exact .inl rfl
    | cons c above =>
      have head := List.head_dropWhile_not (· != '\n')
        (by simp [ended] : cs.reverse.dropWhile (· != '\n') ≠ [])
      simp only [ended, List.head_cons, bne_eq_false_iff_eq] at head
      subst head
      exact .inr ⟨above.reverse, by simp⟩

theorem not_mem_lastLine (cs : List Char) : '\n' ∉ lastLine cs := by
  intro member
  exact not_mem_firstLine cs.reverse (List.mem_reverse.mp member)

/-- The part of a span on its first line is where the span and the line have a common start. -/
theorem exists_firstLine_append (inside after : List Char) :
    ∃ tail, firstLine (inside ++ after) = firstLine inside ++ tail ∧
      min (Text.bytes (firstLine (inside ++ after))) (Text.bytes inside) =
        Text.bytes (firstLine inside) := by
  have split : inside = firstLine inside ++ inside.dropWhile (· != '\n') :=
    List.takeWhile_append_dropWhile.symm
  have part := congrArg Text.bytes split
  rw [Text.bytes_append] at part
  unfold firstLine
  rw [List.takeWhile_append]
  split
  · rename_i whole
    have same : inside.takeWhile (· != '\n') = inside :=
      (List.takeWhile_prefix _).eq_of_length whole
    refine ⟨after.takeWhile (· != '\n'), by rw [same], ?_⟩
    rw [same, Text.bytes_append]
    omega
  · refine ⟨[], by simp, ?_⟩
    rw [firstLine] at part
    omega

theorem sketch?_of_parts {span : Span} {before inside after : List Char}
    (offset : span.offset = Text.bytes before) (length : span.length = Text.bytes inside) :
    sketch? span (before ++ inside ++ after) =
      some ⟨lastLine before ++ firstLine (inside ++ after), (lastLine before).length,
        (firstLine inside).length⟩ := by
  obtain ⟨tail, line, narrow⟩ := exists_firstLine_append inside after
  have cut := Text.cut?_bytes (firstLine inside) tail
  rw [← line] at cut
  unfold sketch?
  rw [offset, length, List.append_assoc, Text.cutBefore_bytes]
  change (Text.cut? (min (Text.bytes (firstLine (inside ++ after))) (Text.bytes inside))
    (firstLine (inside ++ after))).map _ = _
  rw [narrow, cut]
  rfl

/-- A report draws its place in a source. The span covers whole characters. The drawing is the
message, the line on which the span begins, and a line with a space for every character before the
place, a caret, and a tilde for every further character of the span on that line. -/
def Drawn (r : Report) (source : String) : Prop :=
  ∃ lines lead inside after, source.toList = lines ++ lead ++ inside ++ after ∧
    r.span.offset = Text.bytes (lines ++ lead) ∧ r.span.length = Text.bytes inside ∧
    (lines = [] ∨ ∃ above, lines = above ++ ['\n']) ∧ '\n' ∉ lead ∧
    r.render? source = some (r.message ++ "\n" ++
      String.ofList (lead ++ (inside ++ after).takeWhile (· != '\n')) ++ "\n" ++
      String.ofList (List.replicate lead.length ' ' ++
        '^' :: List.replicate ((inside.takeWhile (· != '\n')).length - 1) '~'))

theorem drawn_of_within {r : Report} {source : String} (h : r.span.Within source.toList) :
    r.Drawn source := by
  obtain ⟨before, inside, after, parts, offset, length⟩ := h
  obtain ⟨lines, split, ends⟩ := exists_append_lastLine before
  refine ⟨lines, lastLine before, inside, after, by rw [parts, ← split], by rw [offset, ← split],
    length, ends, not_mem_lastLine before, ?_⟩
  rw [render?, parts, sketch?_of_parts offset length]
  rfl

end JsonQuery.Report
