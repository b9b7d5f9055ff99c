import JsonQuery.Proofs.Outcome
import JsonQuery.Proofs.Text.Within
import JsonQuery.Proofs.Token.Scanning

/-! Where tokens stand. Each reading takes blanks and then the characters of a token or of a lexical
failure, and the span covers these. All spans of a scan therefore cover whole characters. -/
namespace JsonQuery

/-- What is missing in a single equals sign is the second one. -/
theorem Lexeme.first_of_singleEquals {c : Char} {rest : List Char}
    (h : Lexeme.read c rest = .error .singleEquals) : c = '=' := by
  unfold Lexeme.read at h
  split at h
  · cases h
  split at h
  · split at h <;> cases h
  split at h
  · rename_i equals
    exact eq_of_beq equals
  split at h
  · split at h <;> cases h
  · split at h <;> cases h

namespace Cursor

variable {c d : Cursor} {t : Token} {text : List Char}

/-- A reading splits what is left into blanks, the characters under the span, and the remainder,
from which the next reading starts. -/
theorem next_split (c : Cursor) : ∃ blanks taken after, c.rest = blanks ++ taken ++ after ∧
    (∀ b ∈ blanks, Text.isBlank b = true) ∧
    Ensures (fun t => t.span = ⟨c.offset + Text.bytes blanks, Text.bytes taken⟩)
      (fun e => e.span = ⟨c.offset + Text.bytes blanks, Text.bytes taken⟩) c.next.1 ∧
    ∀ t d, c.next = (.ok t, d) →
      d = ⟨c.offset + Text.bytes blanks + Text.bytes taken, after⟩ := by
  have parts : c.rest = c.rest.takeWhile Text.isBlank ++ c.rest.dropWhile Text.isBlank :=
    List.takeWhile_append_dropWhile.symm
  have blank (b : Char) (member : b ∈ c.rest.takeWhile Text.isBlank) : Text.isBlank b = true :=
    List.all_eq_true.mp List.all_takeWhile b member
  unfold next skipBlanks past
  dsimp only
  split
  · rename_i ended
    rw [ended, List.append_nil] at parts
    refine ⟨c.rest.takeWhile Text.isBlank, [], [], by simpa using parts, blank, rfl, ?_⟩
    intro t d h
    cases h
    rw [ended]
    rfl
  · rename_i first others skipped
    split
    · rename_i l read
      refine ⟨_, l.taken, l.rest, ?_, blank, rfl, ?_⟩
      · rw [List.append_assoc, Lexeme.taken_append_rest read, ← skipped, ← parts]
      · intro t d h
        cases h
        rfl
    · refine ⟨_, c.rest.dropWhile Text.isBlank, [], by rw [List.append_nil, ← parts], blank, rfl,
        ?_⟩
      intro t d h
      cases h
    · rename_i read
      have equals : first = '=' := Lexeme.first_of_singleEquals read
      subst equals
      refine ⟨_, ['='], others, ?_, blank, rfl, ?_⟩
      · rw [List.append_assoc, List.singleton_append, ← skipped, ← parts]
      · intro t d h
        cases h

/-- A cursor stands between two characters of a text. -/
def On (c : Cursor) (text : List Char) : Prop :=
  ∃ before, text = before ++ c.rest ∧ c.offset = Text.bytes before

/-- A reading finds its token or failure in the text, and leaves the cursor on it. -/
theorem On.next (on : c.On text) :
    Ensures (fun t => t.span.Within text) (fun e => e.span.Within text) c.next.1 ∧
      ∀ t d, c.next = (.ok t, d) → d.On text := by
  obtain ⟨before, rfl, offset⟩ := on
  obtain ⟨blanks, taken, after, parts, _, spans, moves⟩ := c.next_split
  have within : Span.Within ⟨c.offset + Text.bytes blanks, Text.bytes taken⟩ (before ++ c.rest) :=
    ⟨before ++ blanks, taken, after, by simp [parts], by simp [offset], rfl⟩
  refine ⟨(spans.mono fun t same => same ▸ within).relax fun e same => same ▸ within, ?_⟩
  intro t d h
  rw [moves t d h]
  exact ⟨before ++ blanks ++ taken, by simp [parts], by simp [offset, Nat.add_assoc]⟩

end Cursor

namespace Scan

/-- Everything that a scan finds is on the text. -/
theorem within_of_on {c : Cursor} {text : List Char} (on : c.On text) :
    (∀ t ∈ (Scan.ofCursor c).tokens, t.span.Within text) ∧
      Ensures (fun t => t.span.Within text) (fun e => e.span.Within text)
        (Scan.ofCursor c).last := by
  fun_induction Scan.ofCursor c with
  | case1 c e d h =>
    have found := on.next.1
    rw [h] at found
    exact ⟨fun t member => absurd member List.not_mem_nil, found⟩
  | case2 c t d h ends =>
    have found := on.next.1
    rw [h] at found
    exact ⟨fun t member => absurd member List.not_mem_nil, found⟩
  | case3 c t d h more shorter others ih =>
    have found := on.next.1
    rw [h] at found
    obtain ⟨tokens, last⟩ := ih (on.next.2 t d h)
    refine ⟨fun u member => ?_, last⟩
    rcases List.mem_cons.mp member with rfl | later
    · exact found
    · exact tokens u later

theorem within (source : String) :
    (∀ t ∈ (Scan.of source).tokens, t.span.Within source.toList) ∧
      Ensures (fun t => t.span.Within source.toList) (fun e => e.span.Within source.toList)
        (Scan.of source).last :=
  within_of_on ⟨[], rfl, rfl⟩

end Scan
end JsonQuery
