import JsonQuery.Proofs.Parse.Arena
import JsonQuery.Proofs.Parse.Placement
import JsonQuery.Proofs.Token.Pieces

/-! Sources that differ in the blanks between their tokens. They have the same tokens but for where
these begin, and reading does not look at places, so they are compiled to the same nodes or fail in
the same way. -/
namespace JsonQuery

variable {source source' : String} {cap : Nat} {eof eof' : Token}

/-- The same arena but for the offsets of spans, or failures with the same category and message. -/
def Arena.Resembles : Except Parse.Stop Arena → Except Parse.Stop Arena → Prop
  | .ok a, .ok b => a.root = b.root ∧
      a.rows.map (Row.mapSpan Span.unplaced) = b.rows.map (Row.mapSpan Span.unplaced)
  | .error (.failed e), .error (.failed f) =>
      (ReadError.report e).category = (ReadError.report f).category ∧
        (ReadError.report e).message = (ReadError.report f).message
  | _, _ => False

theorem keepsEmpty_unplaced : Parse.KeepsEmpty Span.unplaced := fun _ => rfl

/-- Without offsets, the outcome for a source is the one for its tokens without offsets. -/
theorem Expr.relocate_parse (lexed : (Scan.of source).last = .ok eof) :
    relocate Span.unplaced (Expr.mapSpan Span.unplaced) (Expr.parse source cap) =
      Parse.run cap (.ok eof.unplaced) ((Scan.of source).tokens.map Token.unplaced)
        (.operand []) := by
  rw [Expr.parse, Parse.ofScan, lexed]
  exact (Parse.run_mapSpan keepsEmpty_unplaced eof (Scan.of source).tokens (.operand [])).symm

/-- The pieces of a source, spaced anew, are scanned into the tokens of the source. -/
theorem Scan.of_spaced (lexed : (Scan.of source).last = .ok eof)
    (spaced : Spaced ((Scan.of source).tokens.map fun t => t.span.textIn source.toList)
      source'.toList) :
    (Scan.of source').tokens.map Token.unplaced = (Scan.of source).tokens.map Token.unplaced ∧
      ∃ eof', (Scan.of source').last = .ok eof' ∧ eof'.unplaced = eof.unplaced := by
  have alone : List.Forall₂ Token.Alone (Scan.of source).tokens
      ((Scan.of source).tokens.map fun t => t.span.textIn source.toList) := by
    rw [List.forall₂_map_right_iff, List.forall₂_same]
    exact Scan.alone_textIn ⟨[], rfl, rfl⟩
  obtain ⟨tokens, eof', last⟩ := Scan.ofCursor_of_spaced spaced alone 0
  exact ⟨tokens, eof', last, (Scan.unplaced_last last).trans (Scan.unplaced_last lexed).symm⟩

/-- Where something failed to be read does not matter for what is said of it. -/
theorem ReadError.report_of_cause_eq {e f : Located ReadError} (same : e.cause = f.cause) :
    (report e).category = (report f).category ∧ (report e).message = (report f).message := by
  simp only [report, same]
  cases f.cause <;> exact ⟨rfl, rfl⟩

namespace Arena

theorem resembles_of_relocate
    (same : relocate Span.unplaced (Expr.mapSpan Span.unplaced) (Expr.parse source cap) =
      relocate Span.unplaced (Expr.mapSpan Span.unplaced) (Expr.parse source' cap)) :
    Resembles (parse source cap) (parse source' cap) := by
  rw [parse_eq, parse_eq]
  cases parsed : Expr.parse source cap with
  | ok e =>
    cases parsed' : Expr.parse source' cap with
    | error f' =>
      rw [parsed, parsed'] at same
      cases same
    | ok e' =>
      rw [parsed, parsed'] at same
      have mapped : e.mapSpan Span.unplaced = e'.mapSpan Span.unplaced := Except.ok.inj same
      constructor
      · dsimp only
        rw [← e.size_mapSpan, mapped, e'.size_mapSpan]
      · simp only [List.map_toArray, Expr.rows, ← Expr.rowsFrom_mapSpan, mapped]
  | error f =>
    cases parsed' : Expr.parse source' cap with
    | ok e' =>
      rw [parsed, parsed'] at same
      cases same
    | error f' =>
      rw [parsed, parsed'] at same
      have mapped : f.mapSpan Span.unplaced = f'.mapSpan Span.unplaced := Except.error.inj same
      exact ReadError.report_of_cause_eq (Located.mk.inj mapped).1

/-- The blanks between tokens, of which there has to be one at least, and those before and after all
tokens do not matter. -/
theorem parse_of_spaced (lexed : (Scan.of source).last = .ok eof)
    (spaced : Spaced ((Scan.of source).tokens.map fun t => t.span.textIn source.toList)
      source'.toList) (cap : Nat) :
    (∃ eof', (Scan.of source').last = .ok eof' ∧
      ((Scan.of source').tokens ++ [eof']).map Token.unplaced =
        ((Scan.of source).tokens ++ [eof]).map Token.unplaced) ∧
    Resembles (parse source cap) (parse source' cap) := by
  obtain ⟨tokens, eof', lexed', last⟩ := Scan.of_spaced lexed spaced
  constructor
  · refine ⟨eof', lexed', ?_⟩
    rw [List.map_append, List.map_append, tokens, List.map_singleton, List.map_singleton, last]
  · apply resembles_of_relocate
    rw [Expr.relocate_parse lexed, Expr.relocate_parse lexed', tokens, last]

/-- A sign and a comparison with a text that has a blank in it. -/
def comparedText : String := "x<=-\"a b\""

/-- The same tokens with blanks between them. -/
def comparedTextSpaced : String := " x\u00a0<= \t- \"a b\"\n"

theorem parse_of_spaced_comparedText :
    (Scan.of comparedText).last = .ok (⟨.eof, "", ⟨9, 0⟩⟩ : Token) ∧
      Spaced ((Scan.of comparedText).tokens.map fun t => t.span.textIn comparedText.toList)
        comparedTextSpaced.toList ∧
      (∃ eof', (Scan.of comparedTextSpaced).last = .ok eof' ∧
        ((Scan.of comparedTextSpaced).tokens ++ [eof']).map Token.unplaced =
          ((Scan.of comparedText).tokens ++ [(⟨.eof, "", ⟨9, 0⟩⟩ : Token)]).map Token.unplaced) ∧
      Resembles (parse comparedText 3) (parse comparedTextSpaced 3) := by
  have lexed : (Scan.of comparedText).last = .ok ⟨.eof, "", ⟨9, 0⟩⟩ := by with_unfolding_all rfl
  have pieces : ((Scan.of comparedText).tokens.map fun t => t.span.textIn comparedText.toList) =
      [['x'], ['<', '='], ['-'], "\"a b\"".toList] := by
    with_unfolding_all rfl
  have parts : comparedTextSpaced.toList = [' '] ++ ['x'] ++ ['\u00a0'] ++
      ([] ++ ['<', '='] ++ [' ', '\t'] ++ ([] ++ ['-'] ++ [' '] ++
        ([] ++ "\"a b\"".toList ++ ['\n']))) := by
    with_unfolding_all rfl
  have spaced : Spaced ((Scan.of comparedText).tokens.map fun t =>
      t.span.textIn comparedText.toList) comparedTextSpaced.toList := by
    rw [pieces, parts]
    have blank {blanks : List Char} (all : blanks.all Text.isBlank = true) :
        ∀ b ∈ blanks, Text.isBlank b = true := List.all_eq_true.mp all
    refine .more (blank rfl) (List.cons_ne_nil _ _) (blank rfl) ?_
    refine .more (blank rfl) (List.cons_ne_nil _ _) (blank rfl) ?_
    refine .more (blank rfl) (List.cons_ne_nil _ _) (blank rfl) ?_
    exact .last (blank rfl) (blank rfl)
  exact ⟨lexed, spaced, parse_of_spaced lexed spaced 3⟩

end Arena
end JsonQuery
