import JsonQuery.Evaluation.Run
import JsonQuery.Proofs.Interpretation.Rows
import JsonQuery.Proofs.Parse.Relocation
import JsonQuery.Typing.Check

/-! The filters of the checker and of the evaluator ignore places, so that the failures of checks
and of runs belong to nodes of the expression, and only their places depend on its places. -/
namespace JsonQuery

/-- When the places in an expression are changed, a visit has the same result, or the same failure
with its place changed. -/
theorem Interpretation.agree_mapSpan {ε α : Type} {i : Interpretation ε α}
    (ignores : i.IgnoresPlaces) (f : Span → Span) (e : Expr) (ambient : α) :
    Agree (fun x y => x.mapSpan f = y) (i.meaning e ambient) (i.meaning (e.mapSpan f) ambient) := by
  have self (span : Span) (cause : ε) :
      (⟨cause, span⟩ : Located ε).mapSpan f = ⟨cause, f span⟩ := rfl
  induction e generalizing ambient with
  | literal value span => exact rfl
  | identifier name span => exact .locate (self span)
  | field a b span iha ihb => exact (iha ambient).bind fun object => ihb object
  | index a b span iha ihb =>
    apply (iha ambient).bind
    intro object
    apply (Agree.locate (self span)).bind
    intro _
    apply (ihb ambient).bind
    intro place
    exact .locate (self span)
  | slice a b span iha ihb =>
    apply (iha ambient).bind
    intro first
    apply (ihb ambient).bind
    intro last
    exact .locate (self span)
  | unary op a span ih =>
    apply (ih ambient).bind
    intro operand
    exact .locate (self span)
  | binary op a b span iha ihb =>
    apply (iha ambient).bind
    intro left
    apply (ihb ambient).bind
    intro right
    exact .locate (self span)
  | filter a b span iha ihb =>
    apply (iha ambient).bind
    intro items
    exact ignores _ _ _ _ _ _ (self span) ihb

theorem Typing.interpretation_ignoresPlaces (o : Options) :
    (Typing.interpretation o).IgnoresPlaces := by
  intro related items span span' p q places agree
  apply (Agree.locate places).bind
  intro item
  apply (agree item).bind
  intro verdict
  exact rfl

namespace Evaluation

variable {o : Options} {related : Located RuntimeError → Located RuntimeError → Prop}
  {p q : Value → Except (Located RuntimeError) Value}

theorem select_agree (agree : ∀ item, Agree related (p item) (q item)) (items : List Value) :
    Agree related (select o p items) (select o q items) := by
  induction items with
  | nil => exact rfl
  | cons item items ih =>
    have first := agree item
    unfold select
    cases judged : p item with
    | error e =>
      obtain ⟨e', judged', relates⟩ := first.exists_of_eq_error judged
      rw [judged']
      dsimp only
      split
      · exact relates
      · exact ih
    | ok verdict =>
      rw [first.eq_ok_iff.mp judged]
      apply ih.bind
      intro kept
      exact rfl

theorem interpretation_ignoresPlaces (o : Options) : (interpretation o).IgnoresPlaces := by
  intro related items span span' p q places agree
  cases items with
  | array items =>
    have selected : Agree related (select o p items) (select o q items) := select_agree agree items
    have both : Agree related (select o p items >>= fun kept => .ok (Value.array kept))
        (select o q items >>= fun kept => .ok (Value.array kept)) :=
      selected.bind fun kept => rfl
    exact both
  | _ => exact places _

end Evaluation
end JsonQuery
