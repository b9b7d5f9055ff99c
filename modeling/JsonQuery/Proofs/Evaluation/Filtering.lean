import JsonQuery.Evaluation.Run
import JsonQuery.Proofs.Interpretation.Visit

/-! What filters keep. A filter that gives a result keeps the items for which its condition holds,
in their order, and a lenient filter of an array always gives one. Two filters one after the other
therefore keep what one filter keeps that asks for both conditions. A strict filter needs its
condition to have a value on every item, and the second of two filters sees fewer items. -/
namespace JsonQuery

/-- Failures for one reason, wherever they are. -/
def Located.SameCause {ε : Type} (e f : Located ε) : Prop := e.cause = f.cause

theorem Agree.of_common {ε α : Type} {x y z : Except (Located ε) α}
    (first : Agree Located.SameCause x z) (last : Agree Located.SameCause y z) :
    Agree Located.SameCause x y := by
  cases z with
  | error h =>
    cases x with
    | ok a => exact first.elim
    | error f =>
      cases y with
      | ok b => exact last.elim
      | error g => exact first.trans last.symm
  | ok c =>
    cases x with
    | error f => exact first.elim
    | ok a =>
      cases y with
      | error g => exact last.elim
      | ok b => exact first.trans last.symm

namespace Evaluation

variable {o : Options} {items condition p q e : Expr} {ambient v : Value} {span : Span}

/-- Whether a condition holds of an item. It does not where it fails. -/
def holds (judge : Value → Except (Located RuntimeError) Value) (item : Value) : Bool :=
  match judge item with
  | .ok verdict => verdict.isTruthy
  | .error _ => false

/-- Only a strict selection can fail, and only where the condition fails. -/
theorem select_eq_ok_iff {judge : Value → Except (Located RuntimeError) Value}
    {vs kept : List Value} : select o judge vs = .ok kept ↔
      (o.strict = true → ∀ item ∈ vs, ∃ verdict, judge item = .ok verdict) ∧
        kept = vs.filter (holds judge) := by
  induction vs generalizing kept with
  | nil =>
    simp only [select, List.not_mem_nil, false_implies, implies_true, true_and, List.filter_nil,
      Except.ok.injEq]
    exact eq_comm
  | cons item vs ih =>
    unfold select
    cases judged : judge item with
    | error f =>
      have fails : holds judge item = false := by simp [holds, judged]
      cases strict : o.strict with
      | true => simp [judged]
      | false => simp [ih, strict, fails]
    | ok verdict =>
      have verdict_eq : holds judge item = verdict.isTruthy := by simp [holds, judged]
      simp only [bind_eq_ok, ih, List.forall_mem_cons, judged, List.filter_cons, verdict_eq]
      constructor
      · rintro ⟨_, ⟨judges, rfl⟩, made⟩
        exact ⟨fun strict => ⟨⟨verdict, rfl⟩, judges strict⟩, (Except.ok.inj made).symm⟩
      · rintro ⟨judges, rfl⟩
        exact ⟨_, ⟨fun strict => (judges strict).2, rfl⟩, rfl⟩

theorem run_filter_eq_ok_iff : run o (.filter items condition span) ambient = .ok v ↔
    ∃ vs, run o items ambient = .ok (.array vs) ∧
      (o.strict = true → ∀ item ∈ vs, ∃ verdict, run o condition item = .ok verdict) ∧
      v = .array (vs.filter (holds (run o condition))) := by
  refine Interpretation.meaning_filter_eq_ok.trans ⟨?_, ?_⟩
  · rintro ⟨found, ran, made⟩
    cases found with
    | array vs =>
      change (select o (run o condition) vs).map Value.array = .ok v at made
      cases selected : select o (run o condition) vs with
      | error f =>
        rw [selected] at made
        cases made
      | ok kept =>
        rw [selected] at made
        cases made
        obtain ⟨judges, rfl⟩ := select_eq_ok_iff.mp selected
        exact ⟨vs, ran, judges, rfl⟩
    | _ => cases made
  · rintro ⟨vs, ran, judges, rfl⟩
    refine ⟨.array vs, ran, ?_⟩
    change (select o (run o condition) vs).map Value.array = _
    rw [select_eq_ok_iff.mpr ⟨judges, rfl⟩]
    rfl

/-- What a lenient filter makes of a value. -/
def keep (test : Value → Bool) (span : Span) : Value → Except (Located RuntimeError) Value
  | .array vs => .ok (.array (vs.filter test))
  | v => .error ⟨.notFilterable v.kind, span⟩

theorem run_filter_of_lenient (lenient : o.strict = false) :
    run o (.filter items condition span) ambient =
      run o items ambient >>= keep (holds (run o condition)) span := by
  change run o items ambient >>= (fun v => filter o v span (run o condition)) = _
  congr 1
  funext v
  cases v with
  | array vs =>
    change (select o (run o condition) vs).map Value.array = _
    rw [select_eq_ok_iff.mpr ⟨by simp [lenient], rfl⟩]
    rfl
  | _ => rfl

theorem keep_eq_ok_iff {test : Value → Bool} {found : Value} : keep test span found = .ok v ↔
    ∃ vs, found = .array vs ∧ v = .array (vs.filter test) := by
  cases found with
  | array vs => simp [keep, eq_comm]
  | _ => simp [keep]

/-- A conjunction looks at both of its operands, and fails if one of them does. -/
theorem exists_run_and : (∃ verdict, run o (.binary .and p q span) v = .ok verdict) ↔
    (∃ left, run o p v = .ok left) ∧ ∃ right, run o q v = .ok right := by
  constructor
  · rintro ⟨verdict, ran⟩
    obtain ⟨left, first, right, last, -⟩ := Interpretation.meaning_binary_eq_ok.mp ran
    exact ⟨⟨left, first⟩, right, last⟩
  · rintro ⟨⟨left, first⟩, right, last⟩
    exact ⟨_, Interpretation.meaning_binary_eq_ok.mpr ⟨left, first, right, last, rfl⟩⟩

def holdsBoth (o : Options) (p q : Expr) (item : Value) : Bool :=
  holds (run o p) item && holds (run o q) item

theorem holdsBoth_comm (o : Options) (p q : Expr) : holdsBoth o p q = holdsBoth o q p := by
  funext item
  exact Bool.and_comm _ _

theorem holdsBoth_self (o : Options) (p : Expr) : holdsBoth o p p = holds (run o p) := by
  funext item
  exact Bool.and_self _

theorem holds_and : holds (run o (.binary .and p q span)) = holdsBoth o p q := by
  funext v
  have whole : run o (.binary .and p q span) v =
      run o p v >>= fun left => run o q v >>= fun right =>
        .ok (.boolean (left.isTruthy && right.isTruthy)) := rfl
  unfold holdsBoth holds
  rw [whole]
  cases run o p v with
  | error f => rfl
  | ok left =>
    cases run o q v with
    | error f => exact (Bool.and_false _).symm
    | ok right => rfl

/-- The expressions that filter by two conditions, in either order, at once or one after the
other. -/
inductive FiltersBoth (items : Expr) : Expr → Expr → Expr → Prop where
  | joint (p q : Expr) (s t : Span) :
      FiltersBoth items p q (.filter items (.binary .and p q s) t)
  | nested (p q : Expr) (s t : Span) : FiltersBoth items p q (.filter (.filter items p s) q t)
  | swap {p q e : Expr} : FiltersBoth items q p e → FiltersBoth items p q e

/-- In all its forms a lenient filter by two conditions keeps the same items, and fails for the same
reason. Only the place of the failure can differ, which is the filter that finds no array. -/
theorem FiltersBoth.agree (form : FiltersBoth items p q e) (lenient : o.strict = false)
    (span : Span) : Agree Located.SameCause (run o e ambient)
      (run o items ambient >>= keep (holdsBoth o p q) span) := by
  induction form with
  | joint p q s t =>
    rw [run_filter_of_lenient lenient, holds_and]
    cases run o items ambient with
    | error f => exact rfl
    | ok found => cases found <;> exact rfl
  | nested p q s t =>
    rw [run_filter_of_lenient lenient, run_filter_of_lenient lenient]
    cases run o items ambient with
    | error f => exact rfl
    | ok found =>
      cases found with
      | array vs =>
        have twice : (vs.filter (holds (run o p))).filter (holds (run o q)) =
            vs.filter (holdsBoth o p q) := by
          rw [List.filter_filter, holdsBoth_comm]
          rfl
        exact congrArg Value.array twice
      | _ => exact rfl
  | swap _ ih =>
    rw [holdsBoth_comm]
    exact ih

/-- What is kept comes from the array, in the order of the array. -/
theorem FiltersBoth.sublist (form : FiltersBoth items p q e) (ran : run o e ambient = .ok v) :
    ∃ vs kept, run o items ambient = .ok (.array vs) ∧ v = .array kept ∧ kept.Sublist vs := by
  induction form with
  | joint p q s t =>
    obtain ⟨vs, found, -, rfl⟩ := run_filter_eq_ok_iff.mp ran
    exact ⟨vs, _, found, rfl, List.filter_sublist⟩
  | nested p q s t =>
    obtain ⟨ws, inner, -, rfl⟩ := run_filter_eq_ok_iff.mp ran
    obtain ⟨vs, found, -, same⟩ := run_filter_eq_ok_iff.mp inner
    obtain rfl := Value.array.inj same
    exact ⟨vs, _, found, rfl, List.filter_sublist.trans List.filter_sublist⟩
  | swap _ ih => exact ih ran

/-- A filter by two conditions and two filters one after the other are the same in a lenient run,
and so are the filters in the other order; a filter by one condition need not be repeated. They give
a result whenever there is an array to filter, without the items for which one of the conditions
fails. If a strict filter by two conditions has a result, then the two filters have it. No filter
adds, repeats or reorders items. -/
theorem filters_fuse (o : Options) (items p q : Expr) (ambient : Value) :
    (o.strict = false →
      (∀ e e', FiltersBoth items p q e → FiltersBoth items p q e' →
        Agree Located.SameCause (run o e ambient) (run o e' ambient)) ∧
      (∀ e span, FiltersBoth items p p e →
        Agree Located.SameCause (run o e ambient) (run o (.filter items p span) ambient)) ∧
      ∀ e v, FiltersBoth items p q e → (run o e ambient = .ok v ↔
        ∃ vs, run o items ambient = .ok (.array vs) ∧
          v = .array (vs.filter (holdsBoth o p q)))) ∧
    (o.strict = true → ∀ s t s' t' v,
      run o (.filter items (.binary .and p q s) t) ambient = .ok v →
        run o (.filter (.filter items p s') q t') ambient = .ok v) ∧
    ∀ e v, FiltersBoth items p q e → run o e ambient = .ok v →
      ∃ vs kept, run o items ambient = .ok (.array vs) ∧ v = .array kept ∧ kept.Sublist vs := by
  refine ⟨fun lenient => ⟨?_, ?_, ?_⟩, fun strict => ?_, fun e v form ran => form.sublist ran⟩
  · intro e e' form form'
    exact (form.agree lenient ⟨0, 0⟩).of_common (form'.agree lenient ⟨0, 0⟩)
  · intro e span form
    have twice : Agree Located.SameCause (run o e ambient)
        (run o items ambient >>= keep (holdsBoth o p p) span) := form.agree lenient span
    rwa [holdsBoth_self, ← run_filter_of_lenient lenient] at twice
  · intro e v form
    rw [(form.agree lenient ⟨0, 0⟩).eq_ok_iff, bind_eq_ok]
    simp only [keep_eq_ok_iff]
    constructor
    · rintro ⟨_, ran, vs, rfl, made⟩
      exact ⟨vs, ran, made⟩
    · rintro ⟨vs, ran, made⟩
      exact ⟨_, ran, vs, rfl, made⟩
  · intro s t s' t' v ran
    obtain ⟨vs, found, judges, rfl⟩ := run_filter_eq_ok_iff.mp ran
    have both (item : Value) (member : item ∈ vs) := exists_run_and.mp (judges strict item member)
    have inner : run o (.filter items p s') ambient =
        .ok (.array (vs.filter (holds (run o p)))) :=
      run_filter_eq_ok_iff.mpr ⟨vs, found, fun _ item member => (both item member).1, rfl⟩
    refine run_filter_eq_ok_iff.mpr ⟨_, inner, ?_, ?_⟩
    · intro _ item member
      exact (both item (List.mem_filter.mp member).1).2
    · rw [holds_and, List.filter_filter, holdsBoth_comm]
      rfl

/-- Each of the two conditions fails on an item for which the other one holds. -/
theorem filters_fuse_failingConditions :
    let p : Expr := .field (.identifier "a" ⟨6, 1⟩) (.identifier "d" ⟨8, 1⟩) ⟨7, 1⟩
    let q : Expr := .field (.identifier "b" ⟨14, 1⟩) (.identifier "c" ⟨16, 1⟩) ⟨15, 1⟩
    let joint : Expr := .filter (.identifier "@" ⟨0, 1⟩) (.binary .and p q ⟨10, 3⟩) ⟨2, 5⟩
    let nested : Expr := .filter (.filter (.identifier "@" ⟨0, 1⟩) p ⟨2, 5⟩) q ⟨10, 5⟩
    let inner (name : String) (b : Bool) : Value := .object [(name, .boolean b)]
    let item (x y : Value) : Value := .object [("a", x), ("b", y)]
    let passing := item (inner "d" true) (inner "c" true)
    let failing := item (inner "d" true) (inner "c" false)
    let mixed : Value := .array
      [passing, item (inner "d" true) (.boolean true), item (.boolean true) (inner "c" true)]
    let plain : Value := .array [failing, passing]
    (FiltersBoth (.identifier "@" ⟨0, 1⟩) p q joint ∧
      FiltersBoth (.identifier "@" ⟨0, 1⟩) p q nested ∧
      Agree Located.SameCause (run ⟨false, false⟩ joint mixed) (run ⟨false, false⟩ nested mixed) ∧
      run ⟨false, false⟩ nested mixed = .ok (.array [passing])) ∧
    (run ⟨true, false⟩ joint plain = .ok (.array [passing]) ∧
      run ⟨true, false⟩ nested plain = .ok (.array [passing]) ∧
      ∃ vs kept, run ⟨true, false⟩ (.identifier "@" ⟨0, 1⟩) plain = .ok (.array vs) ∧
        (.array [passing] : Value) = .array kept ∧ kept.Sublist vs) := by
  intro p q joint nested inner item passing failing mixed plain
  have joined : FiltersBoth (.identifier "@" ⟨0, 1⟩) p q joint := .joint p q _ _
  have split : FiltersBoth (.identifier "@" ⟨0, 1⟩) p q nested := .nested p q _ _
  have lenient := (filters_fuse ⟨false, false⟩ (.identifier "@" ⟨0, 1⟩) p q mixed).1 rfl
  have strict := (filters_fuse ⟨true, false⟩ (.identifier "@" ⟨0, 1⟩) p q plain).2
  have kept : run ⟨true, false⟩ joint plain = .ok (.array [passing]) := rfl
  exact ⟨⟨joined, split, lenient.1 _ _ joined split, rfl⟩,
    kept, strict.1 rfl _ _ _ _ _ kept, strict.2 _ _ joined kept⟩

end Evaluation
end JsonQuery
