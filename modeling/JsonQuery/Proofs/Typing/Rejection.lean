import JsonQuery.Proofs.Interpretation.Places
import JsonQuery.Proofs.Typing.Soundness

/-! What a rejected check says about strict runs. Where the checker refuses an operation, the
evaluator refuses it as well, and everything before it has been accepted. A run on an input of the
checked shape therefore gets no further than the check did. -/
namespace JsonQuery

/-- No node is a filter, so that every node is visited once at most, after its subexpressions. -/
def Expr.Filterless : Expr → Prop
  | literal _ _ | identifier _ _ => True
  | unary _ a _ => a.Filterless
  | field a b _ | index a b _ | slice a b _ | binary _ a b _ => a.Filterless ∧ b.Filterless
  | filter _ _ _ => False

namespace Typing
open Schema RuntimeError

variable {o : Options} {s t l r object place : Schema} {v w x y : Value}

/-- Failures of one operation, whatever their cause. -/
abbrev Refused {ε α : Type} (x : Except ε α) : Prop := Ensures (fun _ => False) (fun _ => True) x

theorem identifier_refused (strict : o.strict = true) (fits : v.Conforms s) {name : String}
    {cause : TypeError} (h : identifier o name s = .error cause) :
    Refused (Evaluation.identifier o name v) := by
  have exact_ : o.fallsBackToName = false := by simp [Options.fallsBackToName, strict]
  have found := lookup_sound fits name
  unfold identifier at h
  unfold Evaluation.identifier
  split at h
  · cases h
  rename_i other
  rw [if_neg other]
  split at h
  · cases h
  rename_i described
  rw [described] at found
  rw [found]
  simp only [exact_, strict, Bool.false_eq_true, if_false]
  trivial

theorem sequence_of_not_indexable (fits : v.Conforms s) {cause : TypeError}
    (h : indexable s = .error cause) : Sequence.ofValue? v = none := by
  cases fits with
  | boolean _ | number _ | object _ _ => rfl
  | string _ | array _ => cases h

theorem indexable_refused (fits : v.Conforms s) {cause : TypeError}
    (h : indexable s = .error cause) : Refused (Evaluation.indexable v) := by
  rw [Evaluation.indexable, sequence_of_not_indexable fits h]
  trivial

theorem indexable_accepted (fits : v.Conforms s) (h : indexable s = .ok ()) :
    Ensures (fun _ => True) (fun _ => False) (Evaluation.indexable v) := by
  obtain ⟨q, found⟩ := sequence_of_indexable fits h
  rw [Evaluation.indexable, found]
  trivial

theorem index_refused (fits : v.Conforms object) (fitsPlace : w.Conforms place)
    (indexed : indexable object = .ok ()) {cause : TypeError}
    (h : index object place = .error cause) : Refused (Evaluation.index v w) := by
  obtain ⟨q, found⟩ := sequence_of_indexable fits indexed
  unfold Evaluation.index
  rw [found]
  cases fitsPlace with
  | boolean _ | string _ | object _ _ => trivial
  | array _ => cases h
  | number _ => cases object <;> cases h

theorem bound_refused (fits : v.Conforms s) (other : isNumeric s = false) :
    Refused (Evaluation.bound v) := by
  cases fits with
  | number _ => cases other
  | boolean _ | string _ | array _ | object _ _ => trivial

theorem slice_refused (fitsFirst : v.Conforms l) (fitsLast : w.Conforms r) {cause : TypeError}
    (h : slice l r = .error cause) : Refused (Evaluation.slice v w) := by
  unfold slice at h
  split at h
  · rename_i other
    have refused := bound_refused fitsFirst (by simpa using other)
    exact refused.stop
  split at h
  · rename_i numeric other
    obtain ⟨n, rfl⟩ := number_sound fitsFirst (by simpa using numeric)
    have refused := bound_refused fitsLast (by simpa using other)
    exact refused.stop
  · cases h

theorem number_refused (fits : v.Conforms s) (other : isNumeric s = false) :
    Refused (Evaluation.number v) := by
  cases fits with
  | number _ => cases other
  | boolean _ | string _ | array _ | object _ _ => trivial

theorem unary_refused {op : UnaryOp} (fits : v.Conforms s) {cause : TypeError}
    (h : unary op s = .error cause) : Refused (Evaluation.unary op v) := by
  cases op with
  | not => cases h
  | plus | minus =>
    simp only [unary] at h
    split at h
    · cases h
    · rename_i other
      exact (number_refused fits (by simpa using other)).map fun _ never => never

theorem calculation_refused {op : Arithmetic} (fitsLeft : v.Conforms l) (fitsRight : w.Conforms r)
    {cause : TypeError} (h : calculation l r = .error cause) :
    Refused (Evaluation.calculation op v w) := by
  cases fitsLeft with
  | number n =>
    cases fitsRight with
    | number m => cases h
    | boolean _ | string _ | array _ | object _ _ => trivial
  | boolean _ | string _ | array _ | object _ _ => trivial

theorem sum_refused (fitsLeft : v.Conforms l) (fitsRight : w.Conforms r)
    (other : ∀ a b, l = .array a → r ≠ .array b) {cause : TypeError} (h : sum l r = .error cause) :
    Refused (Evaluation.sum v w) := by
  have numeric : calculation l r = .error cause → Refused (Evaluation.calculation .add v w) :=
    calculation_refused fitsLeft fitsRight
  cases fitsLeft with
  | string text => cases h
  | array _ =>
    cases fitsRight with
    | string text => cases h
    | array _ => exact absurd rfl (other _ _ rfl)
    | boolean _ | number _ | object _ _ => exact numeric h
  | boolean _ | number _ | object _ _ =>
    cases fitsRight with
    | string text => cases h
    | boolean _ | number _ | array _ | object _ _ => exact numeric h

theorem binary_refused {op : BinaryOp} (fitsLeft : v.Conforms l) (fitsRight : w.Conforms r)
    (other : op = .arithmetic .add → ∀ a b, l = .array a → r ≠ .array b) {cause : TypeError}
    (h : binary op l r = .error cause) : Refused (Evaluation.binary op v w) := by
  cases op with
  | arithmetic op =>
    cases op with
    | add => exact sum_refused fitsLeft fitsRight (other rfl) h
    | subtract | multiply | divide | remainder | power =>
      exact calculation_refused fitsLeft fitsRight h
  | inequality op =>
    simp only [binary] at h
    split at h
    · cases h
    rename_i mixed
    by_cases first : isNumeric l = true
    · obtain ⟨n, rfl⟩ := number_sound fitsLeft first
      have second : isNumeric r = false := by simpa [first] using mixed
      exact (number_refused fitsRight second).stop
    · exact (number_refused fitsLeft (by simpa using first)).stop
  | equal | notEqual | and | or | isIn | contains | startsWith | endsWith | before | after =>
    cases h

theorem check_numberedFrom_eq_ok {e : Expr} {start : Nat} :
    check o (e.numberedFrom start) s = .ok t ↔ check o e s = .ok t :=
  (Interpretation.agree_numberedFrom (interpretation_ignoresPlaces o) e start s).eq_ok_iff.symm

theorem SumsMeet.mono {related related' : Schema → Schema → Prop}
    (weaker : ∀ l r, related l r → related' l r) {e : Expr} (h : SumsMeet o related e s) :
    SumsMeet o related' e s := by
  induction e generalizing s with
  | literal value span | identifier name span => trivial
  | unary op a span ih => exact ih h
  | field a b span iha ihb => exact ⟨iha h.1, fun t ha => ihb (h.2 t ha)⟩
  | index a b span iha ihb => exact ⟨iha h.1, fun t ha indexed => ihb (h.2 t ha indexed)⟩
  | slice a b span iha ihb => exact ⟨iha h.1, fun t ha => ihb (h.2 t ha)⟩
  | binary op a b span iha ihb =>
    exact ⟨iha h.1, fun t ha => ihb (h.2.1 t ha),
      fun add l r ha hb => weaker l r (h.2.2 add l r ha hb)⟩
  | filter a b span iha ihb =>
    exact ⟨iha h.1, fun item ha => ihb (h.2.1 item ha), fun ha => ihb (h.2.2 ha)⟩

theorem SumsMeet.numberedFrom {related : Schema → Schema → Prop} {e : Expr} (start : Nat)
    (h : SumsMeet o related e s) : SumsMeet o related (e.numberedFrom start) s := by
  induction e generalizing s start with
  | literal value span | identifier name span => trivial
  | unary op a span ih => exact ih start h
  | field a b span iha ihb =>
    exact ⟨iha _ h.1, fun t ha => ihb _ (h.2 t (check_numberedFrom_eq_ok.mp ha))⟩
  | index a b span iha ihb =>
    exact ⟨iha _ h.1,
      fun t ha indexed => ihb _ (h.2 t (check_numberedFrom_eq_ok.mp ha) indexed)⟩
  | slice a b span iha ihb =>
    exact ⟨iha _ h.1, fun t ha => ihb _ (h.2 t (check_numberedFrom_eq_ok.mp ha))⟩
  | binary op a b span iha ihb =>
    exact ⟨iha _ h.1, fun t ha => ihb _ (h.2.1 t (check_numberedFrom_eq_ok.mp ha)),
      fun add l r ha hb =>
        h.2.2 add l r (check_numberedFrom_eq_ok.mp ha) (check_numberedFrom_eq_ok.mp hb)⟩
  | filter a b span iha ihb =>
    exact ⟨iha _ h.1, fun item ha => ihb _ (h.2.1 item (check_numberedFrom_eq_ok.mp ha)),
      fun ha => ihb _ (h.2.2 (check_numberedFrom_eq_ok.mp ha))⟩

/-- With row numbers in place of spans, a run fails at the row of a failed check, or before it for a
reason that lies in the values. -/
def NoLater (row : Nat) (f : Located RuntimeError) : Prop :=
  f.span = ⟨row, 0⟩ ∨ f.span.offset < row ∧ f.cause.DependsOnValue

/-- What has been accepted before a row runs as it was checked, or fails before the row. -/
theorem run_before {e : Expr} {start : Nat} (row : Nat) {input : Value} (known : Known s)
    (distinct : Distinct s) (fits : input.Conforms s)
    (checked : check o (e.numberedFrom start) s = .ok t)
    (sums : SumsMeet o (fun _ _ => False) e s) (before : start + e.size ≤ row) :
    Ensures (·.Conforms t) (NoLater row) (Evaluation.run o (e.numberedFrom start) input) := by
  have equal : SumsMeet o (fun l r => l.equal r = true) (e.numberedFrom start) s :=
    (sums.numberedFrom start).mono fun l r never => never.elim
  have sound := run_ensures known distinct fits checked equal
  have bounds := Interpretation.numberedFrom_ensures (Evaluation.interpretation_ignoresPlaces o) e
    start input
  cases ran : Evaluation.run o (e.numberedFrom start) input with
  | ok v => exact sound.of_eq_ok ran
  | error f =>
    have inside := bounds.of_eq_error ran
    exact .inr ⟨by omega, sound.of_eq_error ran⟩

theorem noLater_of_refused {α : Type} {row : Nat} {x : Except RuntimeError α}
    (refused : Refused x) :
    Ensures (fun _ => False) (NoLater row) (Span.locate ⟨row, 0⟩ x) := by
  cases x with
  | ok v => exact refused.elim
  | error cause => exact .inl rfl

/-- A failed check is at a row of the expression or later. -/
theorem le_of_check_eq_error {e : Expr} {start : Nat} {f : Located TypeError}
    (failed : check o (e.numberedFrom start) s = .error f) : start ≤ f.span.offset :=
  ((Interpretation.numberedFrom_ensures (interpretation_ignoresPlaces o) e start s).of_eq_error
    failed).1

/-- By induction on the expression. What comes before the failed operation has been accepted, so it
runs as it was checked, and the operation itself is refused by both. -/
theorem run_noLater (strict : o.strict = true) {e : Expr} (filterless : e.Filterless) {start : Nat}
    {input : Value} (known : Known s) (distinct : Distinct s) (fits : input.Conforms s)
    (sums : SumsMeet o (fun _ _ => False) e s) {f : Located TypeError}
    (failed : check o (e.numberedFrom start) s = .error f) :
    Ensures (fun _ => False) (NoLater f.span.offset)
      (Evaluation.run o (e.numberedFrom start) input) := by
  induction e generalizing start s input with
  | literal value span => cases failed
  | identifier name span =>
    obtain ⟨cause, refuses, rfl⟩ := Span.locate_eq_error.mp failed
    exact noLater_of_refused (identifier_refused strict fits refuses)
  | field a b span iha ihb =>
    obtain failed | ⟨object, ha, failed⟩ := Interpretation.meaning_field_eq_error.mp failed
    · exact (iha filterless.1 known distinct fits sums.1 failed).stop
    have plain := check_numberedFrom_eq_ok.mp ha
    have first := run_before _ known distinct fits ha sums.1 (le_of_check_eq_error failed)
    apply first.bind
    intro v conforms
    exact ihb filterless.2 (check_known known plain) (check_distinct distinct plain) conforms
      (sums.2 object plain) failed
  | index a b span iha ihb =>
    obtain failed | ⟨object, ha, failed⟩ := Interpretation.meaning_index_eq_error.mp failed
    · exact (iha filterless.1 known distinct fits sums.1 failed).stop
    have plain := check_numberedFrom_eq_ok.mp ha
    obtain failed | ⟨indexed, failed⟩ := failed
    · obtain ⟨cause, refuses, rfl⟩ := Span.locate_eq_error.mp failed
      have first := run_before (start + a.size + b.size) known distinct fits ha sums.1
        (by omega)
      apply first.bind
      intro v conforms
      exact (noLater_of_refused (indexable_refused conforms refuses)).stop
    obtain failed | ⟨place, hb, failed⟩ := failed
    · have first := run_before _ known distinct fits ha sums.1 (le_of_check_eq_error failed)
      apply first.bind
      intro v conforms
      have allowed := (indexable_accepted conforms indexed).locate ⟨start + a.size + b.size, 0⟩
      apply (allowed.relax fun _ never => never.elim).bind
      intro _ _
      exact (ihb filterless.2 known distinct fits (sums.2 object plain indexed) failed).stop
    · obtain ⟨cause, refuses, rfl⟩ := Span.locate_eq_error.mp failed
      have first := run_before (start + a.size + b.size) known distinct fits ha sums.1
        (by omega)
      have second := run_before (start + a.size + b.size) known distinct fits hb
        (sums.2 object plain indexed) (by omega)
      apply first.bind
      intro v conforms
      have allowed := (indexable_accepted conforms indexed).locate ⟨start + a.size + b.size, 0⟩
      apply (allowed.relax fun _ never => never.elim).bind
      intro _ _
      apply second.bind
      intro w conformsPlace
      exact noLater_of_refused (index_refused conforms conformsPlace indexed refuses)
  | slice a b span iha ihb =>
    obtain failed | ⟨first, ha, failed⟩ := Interpretation.meaning_slice_eq_error.mp failed
    · exact (iha filterless.1 known distinct fits sums.1 failed).stop
    have plain := check_numberedFrom_eq_ok.mp ha
    obtain failed | ⟨last, hb, failed⟩ := failed
    · have first := run_before _ known distinct fits ha sums.1 (le_of_check_eq_error failed)
      apply first.bind
      intro _ _
      exact (ihb filterless.2 known distinct fits (sums.2 _ plain) failed).stop
    · obtain ⟨cause, refuses, rfl⟩ := Span.locate_eq_error.mp failed
      apply (run_before _ known distinct fits ha sums.1 (Nat.le_add_right _ _)).bind
      intro v conformsFirst
      apply (run_before _ known distinct fits hb (sums.2 _ plain) (Nat.le_refl _)).bind
      intro w conformsLast
      exact noLater_of_refused (slice_refused conformsFirst conformsLast refuses)
  | unary op a span ih =>
    obtain failed | ⟨operand, ha, failed⟩ := Interpretation.meaning_unary_eq_error.mp failed
    · exact (ih filterless known distinct fits sums failed).stop
    · obtain ⟨cause, refuses, rfl⟩ := Span.locate_eq_error.mp failed
      apply (run_before _ known distinct fits ha sums (Nat.le_refl _)).bind
      intro v conforms
      exact noLater_of_refused (unary_refused conforms refuses)
  | binary op a b span iha ihb =>
    obtain failed | ⟨left, ha, failed⟩ := Interpretation.meaning_binary_eq_error.mp failed
    · exact (iha filterless.1 known distinct fits sums.1 failed).stop
    have plain := check_numberedFrom_eq_ok.mp ha
    obtain failed | ⟨right, hb, failed⟩ := failed
    · have first := run_before _ known distinct fits ha sums.1 (le_of_check_eq_error failed)
      apply first.bind
      intro _ _
      exact (ihb filterless.2 known distinct fits (sums.2.1 _ plain) failed).stop
    · obtain ⟨cause, refuses, rfl⟩ := Span.locate_eq_error.mp failed
      have other : op = .arithmetic .add → ∀ l r, left = .array l → right ≠ .array r := by
        rintro add l r rfl rfl
        exact sums.2.2 add l r plain (check_numberedFrom_eq_ok.mp hb)
      apply (run_before _ known distinct fits ha sums.1 (Nat.le_add_right _ _)).bind
      intro v conformsLeft
      apply (run_before _ known distinct fits hb (sums.2.1 _ plain) (Nat.le_refl _)).bind
      intro w conformsRight
      exact noLater_of_refused (binary_refused conformsLeft conformsRight other refuses)
  | filter a b span iha ihb => exact filterless.elim

/-- A check without filters raises no false alarm. When it fails at a node, every strict run on an
input of the checked shape fails, at the same node or, for a reason that lies in the values, at one
that is visited before. -/
theorem run_fails_of_check_fails (o : Options) (e : Expr) (s : Schema) (input : Value)
    (f : Located TypeError) (strict : o.strict = true) (filterless : e.Filterless)
    (known : Known s) (distinct : Distinct s) (fits : input.Conforms s)
    (sums : SumsMeet o (fun _ _ => False) e s) (failed : check o e s = .error f) :
    ∃ row g row', (interpretation o).FailsAt e s row f ∧
      (Evaluation.interpretation o).FailsAt e input row' g ∧
      (row' = row ∧ g.span = f.span ∨ row' < row ∧ g.cause.DependsOnValue) := by
  obtain ⟨row, failsAt, at_⟩ :=
    Interpretation.exists_failsAt (interpretation_ignoresPlaces o) failed
  have late := run_noLater strict filterless known distinct fits sums failsAt.2
  cases ran : Evaluation.run o e input with
  | ok v =>
    have agree := Interpretation.agree_numberedFrom (Evaluation.interpretation_ignoresPlaces o) e 0
      input
    exact (late.of_eq_ok (agree.eq_ok_iff.mp ran)).elim
  | error g =>
    obtain ⟨row', failsAt', at'⟩ :=
      Interpretation.exists_failsAt (Evaluation.interpretation_ignoresPlaces o) ran
    refine ⟨row, g, row', failsAt, failsAt', ?_⟩
    obtain same | ⟨earlier, depends⟩ := late.of_eq_error failsAt'.2
    · cases same
      exact .inl ⟨rfl, at'.unique at_⟩
    · exact .inr ⟨earlier, depends⟩

/-- `1 / n == -name`, of which both operands can fail. -/
def quotientOrName : Expr :=
  .binary .equal
    (.binary (.arithmetic .divide) (.literal (.number 1) ⟨0, 1⟩) (.identifier "n" ⟨4, 1⟩) ⟨2, 1⟩)
    (.unary .minus (.identifier "name" ⟨10, 4⟩) ⟨9, 1⟩) ⟨6, 2⟩

/-- The name is a string, which the check refuses; a run on zero does not come to it. -/
theorem run_fails_of_check_fails_quotientOrName :
    let s : Schema := .object [("n", .number), ("name", .string)]
    let input : Value := .object [("n", .number 0), ("name", .string "x")]
    let f : Located TypeError := ⟨.notNumber .string, ⟨9, 1⟩⟩
    check ⟨true, false⟩ quotientOrName s = .error f ∧
      ∃ row g row', (interpretation ⟨true, false⟩).FailsAt quotientOrName s row f ∧
        (Evaluation.interpretation ⟨true, false⟩).FailsAt quotientOrName input row' g ∧
        (row' = row ∧ g.span = f.span ∨ row' < row ∧ g.cause.DependsOnValue) := by
  intro s input f
  have parts : ∀ p, Part p s →
      p = .object [("n", .number), ("name", .string)] ∨ p = .number ∨ p = .string := by
    intro p part
    unfold s at part
    cases part with
    | whole => exact .inl rfl
    | field member inner =>
      simp only [List.mem_cons, Prod.mk.injEq, List.not_mem_nil, or_false] at member
      obtain ⟨rfl, rfl⟩ | ⟨rfl, rfl⟩ := member <;> cases inner <;> simp
  have known : Known s := by
    intro unknown
    rcases parts _ unknown with same | same | same <;> cases same
  have distinct : Distinct s := by
    intro fields part
    rcases parts _ part with same | same | same <;> cases same
    decide
  have fits : input.Conforms s := by
    refine .object (fun key => Iff.rfl) fun key v s held described => ?_
    have value := Fields.mem_of_get? held
    have shape := Fields.mem_of_get? described
    simp only [List.mem_cons, Prod.mk.injEq, List.not_mem_nil, or_false] at value shape
    obtain ⟨rfl, rfl⟩ | ⟨rfl, rfl⟩ := value <;> obtain ⟨same, rfl⟩ | ⟨same, rfl⟩ := shape
    · exact .number 0
    · exact absurd same (by decide)
    · exact absurd same (by decide)
    · exact .string "x"
  have sums : SumsMeet ⟨true, false⟩ (fun _ _ => False) quotientOrName s :=
    ⟨⟨trivial, fun _ _ => trivial, nofun⟩, fun _ _ => trivial, nofun⟩
  exact ⟨rfl, run_fails_of_check_fails _ _ _ _ _ rfl ⟨⟨trivial, trivial⟩, trivial⟩ known distinct
    fits sums rfl⟩

end Typing
end JsonQuery
