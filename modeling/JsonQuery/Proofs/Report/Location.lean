import JsonQuery.Proofs.Interpretation.Places
import JsonQuery.Proofs.Parse.Placement
import JsonQuery.Proofs.Report.Drawing
import JsonQuery.Query

/-! Where failures are. Reading fails at a token or at a node that it is about to make, and a visit
fails at a node, all of which stand on whole characters of the source. So every failure can be drawn
under the source that it comes from. -/
namespace JsonQuery

/-- A failure of a visit has the span of a node. -/
theorem Interpretation.exists_row_of_eq_error {ε α : Type} {i : Interpretation ε α}
    (ignores : i.IgnoresPlaces) {e : Expr} {ambient : α} {f : Located ε}
    (failed : i.meaning e ambient = .error f) : ∃ r ∈ e.rows, r.span = f.span := by
  obtain ⟨row, _, r, _, found, same⟩ := exists_failsAt ignores failed
  exact ⟨r, List.mem_of_getElem? found, same⟩

theorem ReadError.span_report (f : Located ReadError) : (ReadError.report f).span = f.span := by
  obtain ⟨cause, span⟩ := f
  cases cause <;> rfl

theorem ReadError.category_report (f : Located ReadError) :
    (ReadError.report f).category = .lex ∨ (ReadError.report f).category = .parse := by
  obtain ⟨cause, span⟩ := f
  cases cause with
  | lexical e => exact .inl rfl
  | grammatical e => exact .inr rfl

theorem RuntimeError.span_report (f : Located RuntimeError) :
    (RuntimeError.report f).span = f.span := by
  obtain ⟨cause, span⟩ := f
  cases cause <;> rfl

theorem RuntimeError.category_report (f : Located RuntimeError) :
    (RuntimeError.report f).category = .runtime ∨
      (RuntimeError.report f).category = .divisionByZero := by
  obtain ⟨cause, span⟩ := f
  cases cause with
  | divisionByZero => exact .inr rfl
  | _ => exact .inl rfl

/-- Every failure can be drawn under the source. A failure to read is of the scanner or of the
parser. What a check or a run reports about the expression that was read is of the kind that belongs
to it, and at one of the nodes. -/
theorem failures_drawn (source : String) (cap : Nat) :
    (∀ f, Expr.parse source cap = .error f →
      ((ReadError.report f).category = .lex ∨ (ReadError.report f).category = .parse) ∧
        (ReadError.report f).Drawn source) ∧
    ∀ e, Expr.parse source cap = .ok e →
      (∀ o s f, Typing.check o e s = .error f →
        (TypeError.report f).category = .type ∧
          (∃ r ∈ e.rows, r.span = (TypeError.report f).span) ∧
          (TypeError.report f).Drawn source) ∧
      ∀ o input f, Evaluation.run o e input = .error f →
        ((RuntimeError.report f).category = .runtime ∨
            (RuntimeError.report f).category = .divisionByZero) ∧
          (∃ r ∈ e.rows, r.span = (RuntimeError.report f).span) ∧
          (RuntimeError.report f).Drawn source := by
  have read := Expr.parse_within source cap
  refine ⟨fun f failed => ⟨ReadError.category_report f, ?_⟩, fun e parsed => ⟨?_, ?_⟩⟩
  · apply Report.drawn_of_within
    rw [ReadError.span_report]
    exact read.of_eq_error failed
  · intro o s f failed
    obtain ⟨r, member, same⟩ :=
      Interpretation.exists_row_of_eq_error (Typing.interpretation_ignoresPlaces o) failed
    have within := read.of_eq_ok parsed r member
    rw [same] at within
    exact ⟨rfl, ⟨r, member, same⟩, Report.drawn_of_within within⟩
  · intro o input f failed
    obtain ⟨r, member, same⟩ :=
      Interpretation.exists_row_of_eq_error (Evaluation.interpretation_ignoresPlaces o) failed
    rw [← RuntimeError.span_report] at same
    have within := read.of_eq_ok parsed r member
    rw [same] at within
    exact ⟨RuntimeError.category_report f, ⟨r, member, same⟩, Report.drawn_of_within within⟩

/-- An accented text cannot be multiplied, and an accented name cannot be the whole of a sum. -/
theorem failures_drawn_accented :
    let product : Expr :=
      .binary (.arithmetic .multiply) (.literal (.string "é") ⟨0, 4⟩)
        (.identifier "n" ⟨7, 1⟩) ⟨5, 1⟩
    let incomplete : Located ReadError := ⟨.grammatical .incomplete, ⟨4, 0⟩⟩
    let untyped : Located TypeError := ⟨.incompatible .string .number, ⟨5, 1⟩⟩
    let undefined : Located RuntimeError := ⟨.incompatible .string .number, ⟨5, 1⟩⟩
    Expr.parse "é +" 4 = .error incomplete ∧ (ReadError.report incomplete).Drawn "é +" ∧
      Expr.parse "\"é\" * n" 4 = .ok product ∧
      Typing.check ⟨true, false⟩ product (.object [("n", .number)]) = .error untyped ∧
      (TypeError.report untyped).Drawn "\"é\" * n" ∧
      Evaluation.run ⟨true, false⟩ product (.object [("n", .number 1)]) = .error undefined ∧
      (RuntimeError.report undefined).Drawn "\"é\" * n" := by
  intro product incomplete untyped undefined
  have unread : Expr.parse "é +" 4 = .error incomplete := by with_unfolding_all rfl
  have parsed : Expr.parse "\"é\" * n" 4 = .ok product := by with_unfolding_all rfl
  have refused : Typing.check ⟨true, false⟩ product (.object [("n", .number)]) = .error untyped :=
    rfl
  have failed : Evaluation.run ⟨true, false⟩ product (.object [("n", .number 1)]) =
      .error undefined := rfl
  have visits := (failures_drawn "\"é\" * n" 4).2 product parsed
  exact ⟨unread, ((failures_drawn "é +" 4).1 _ unread).2, parsed, refused,
    (visits.1 _ _ _ refused).2.2, failed, (visits.2 _ _ _ failed).2.2⟩

end JsonQuery
