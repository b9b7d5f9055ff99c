import JsonQuery.Evaluation.Run
import JsonQuery.Proofs.Typing.Parts

/-! What a check says about runs. A run on an input of the checked shape gives a value of the
inferred shape, or it fails for a reason that no shape rules out: a division by zero, a place
outside a sequence, a text that is no date. The checker compares the items of two joined arrays by
kind alone, so for sums of arrays equal schemas are asked for. -/
namespace JsonQuery

/-- Failures that depend on the values at hand, and not on their shape alone. -/
def RuntimeError.DependsOnValue : RuntimeError → Prop
  | .divisionByZero | .outOfRange _ _ | .reversedBounds _ _ | .badBounds | .notInstant _ => True
  | _ => False

namespace Typing
open Schema RuntimeError

variable {o : Options} {s t l r object place : Schema} {v w x y : Value}

/-- Every sum that a check visits, and that gets two arrays, gets arrays whose item schemas stand in
a relation. A subexpression is visited when all that comes before it has succeeded. -/
def SumsMeet (o : Options) (related : Schema → Schema → Prop) : Expr → Schema → Prop
  | .literal _ _, _ | .identifier _ _, _ => True
  | .field a b _, s => SumsMeet o related a s ∧
      ∀ t, check o a s = .ok t → SumsMeet o related b t
  | .index a b _, s => SumsMeet o related a s ∧
      ∀ t, check o a s = .ok t → indexable t = .ok () → SumsMeet o related b s
  | .slice a b _, s => SumsMeet o related a s ∧
      ∀ t, check o a s = .ok t → SumsMeet o related b s
  | .unary _ a _, s => SumsMeet o related a s
  | .binary op a b _, s => SumsMeet o related a s ∧
      (∀ t, check o a s = .ok t → SumsMeet o related b s) ∧
      (op = .arithmetic .add → ∀ l r, check o a s = .ok (.array l) → check o b s = .ok (.array r) →
        related l r)
  | .filter a b _, s => SumsMeet o related a s ∧
      (∀ item, check o a s = .ok (.array item) → SumsMeet o related b item) ∧
      (check o a s = .ok .unknown → SumsMeet o related b .unknown)

/-- A name is looked up in a value as it is in the schema of the value. -/
theorem lookup_sound (fits : v.Conforms s) (name : String) :
    match (special? name s).or (s.property? name) with
    | some t => ∃ w, (Evaluation.special? name v).or (v.get? name) = some w ∧ w.Conforms t
    | none => (Evaluation.special? name v).or (v.get? name) = none := by
  cases fits with
  | boolean b => rfl
  | number n => rfl
  | string text =>
    by_cases length : name = "length"
    · simp [special?, Evaluation.special?, length, Value.Conforms.number]
    by_cases lower : name = "lower"
    · simp [special?, Evaluation.special?, lower, Value.Conforms.string]
    by_cases upper : name = "upper"
    · simp [special?, Evaluation.special?, upper, Value.Conforms.string]
    · simp [special?, Evaluation.special?, length, lower, upper, property?, Value.get?]
  | array items =>
    by_cases length : name = "length"
    · simp [special?, Evaluation.special?, length, Value.Conforms.number]
    · simp [special?, Evaluation.special?, length, property?, Value.get?]
  | @object fields shape keys values =>
    simp only [special?, Evaluation.special?, property?, Value.get?, Option.none_or]
    have same := keys name
    rw [← Fields.isSome_get?_iff, ← Fields.isSome_get?_iff] at same
    cases described : Fields.get? name shape with
    | none => simpa [described] using same
    | some t =>
      obtain ⟨w, held⟩ := Option.isSome_iff_exists.mp (same.mpr (by simp [described]))
      exact ⟨w, held, values name w t held described⟩

theorem identifier_sound (fits : v.Conforms s) {name : String} (h : identifier o name s = .ok t) :
    ∃ w, Evaluation.identifier o name v = .ok w ∧ w.Conforms t := by
  unfold identifier at h
  unfold Evaluation.identifier
  have found := lookup_sound fits name
  split at h
  · rename_i self
    cases h
    exact ⟨v, by rw [if_pos self], fits⟩
  · rename_i other
    rw [if_neg other]
    split at h
    · rename_i described
      cases h
      rw [described] at found
      obtain ⟨w, held, conforms⟩ := found
      exact ⟨w, by rw [held], conforms⟩
    · rename_i described
      rw [described] at found
      rw [found]
      split at h
      · cases fits
      · split at h
        · rename_i fallback
          cases h
          exact ⟨.string name, by simp [fallback], .string name⟩
        · cases h

theorem sequence_of_indexable (fits : v.Conforms s) (h : indexable s = .ok ()) :
    ∃ q, Sequence.ofValue? v = some q := by
  cases fits with
  | string _ | array _ => exact ⟨_, rfl⟩
  | boolean _ | number _ | object _ _ => cases h

theorem elementAt_ensures {post : Value → Prop} (q : Sequence) (n : Float)
    (each : ∀ place v, q.element? place = some v → post v) :
    Ensures post DependsOnValue (q.elementAt n) := by
  unfold Sequence.elementAt
  cases found : (Sequence.place? n q.length).bind q.element? with
  | none => trivial
  | some v =>
    obtain ⟨place, _, held⟩ := Option.bind_eq_some_iff.mp found
    exact each place v held

theorem place_ensures (n : Float) (length : Nat) :
    Ensures (fun _ => True) DependsOnValue (Sequence.place n length) := by
  unfold Sequence.place
  split <;> trivial

theorem sliceAt_ensures {post : Value → Prop} (q : Sequence) (first last : Float)
    (each : ∀ place count, post (q.extract place count).toValue) :
    Ensures post DependsOnValue (q.sliceAt first last) := by
  apply (place_ensures first q.length).bind
  intro start _
  apply (place_ensures last q.length).bind
  intro stop _
  split
  · trivial
  · exact each _ _

/-- Indexing by a number gives an item, and indexing by bounds gives something like the whole. -/
theorem index_sound (fits : v.Conforms object) (fitsPlace : w.Conforms place)
    (indexed : indexable object = .ok ()) (h : index object place = .ok t) :
    Ensures (·.Conforms t) DependsOnValue (Evaluation.index v w) := by
  have sliced : ∀ q first last, Sequence.ofValue? v = some q →
      Ensures (·.Conforms object) DependsOnValue (q.sliceAt first last) := by
    intro q first last found
    apply sliceAt_ensures
    intro start count
    cases fits with
    | string text => cases found; exact .string _
    | array items =>
      cases found
      exact .array fun v member => items v (List.mem_of_mem_drop (List.mem_of_mem_take member))
    | boolean _ | number _ | object _ _ => cases found
  have element : ∀ q n, Sequence.ofValue? v = some q → index object .number = .ok t →
      Ensures (·.Conforms t) DependsOnValue (q.elementAt n) := by
    intro q n found typed
    apply elementAt_ensures
    intro start u held
    cases fits with
    | string text =>
      cases found
      cases typed
      obtain ⟨c, _, rfl⟩ := Option.map_eq_some_iff.mp held
      exact .string _
    | array items =>
      cases found
      cases typed
      exact items u (List.mem_of_getElem? held)
    | boolean _ | number _ | object _ _ => cases found
  obtain ⟨q, found⟩ := sequence_of_indexable fits indexed
  unfold Evaluation.index
  rw [found]
  cases fitsPlace with
  | number n => exact element q n found h
  | array items =>
    cases h
    split
    · contradiction
    · contradiction
    · rename_i known bounds
      cases known
      exact sliced q _ _ found
    · trivial
    · rename_i other
      exact absurd rfl (other _)
  | boolean _ | string _ | object _ _ => cases h

theorem number_sound (fits : v.Conforms s) (h : isNumeric s = true) :
    ∃ n, v = .number n := by
  cases fits with
  | number n => exact ⟨n, rfl⟩
  | boolean _ | string _ | array _ | object _ _ => cases h

theorem slice_sound (fitsFirst : v.Conforms l) (fitsLast : w.Conforms r)
    (h : slice l r = .ok t) : ∃ u, Evaluation.slice v w = .ok u ∧ u.Conforms t := by
  unfold slice at h
  split at h
  · cases h
  · split at h
    · cases h
    · rename_i first last
      cases h
      obtain ⟨n, rfl⟩ := number_sound fitsFirst (by simpa using first)
      obtain ⟨m, rfl⟩ := number_sound fitsLast (by simpa using last)
      refine ⟨_, rfl, .array fun v member => ?_⟩
      rcases List.mem_cons.mp member with rfl | member
      · exact .number n
      · cases List.mem_singleton.mp member
        exact .number m

theorem unary_sound {op : UnaryOp} (fits : v.Conforms s) (h : unary op s = .ok t) :
    ∃ u, Evaluation.unary op v = .ok u ∧ u.Conforms t := by
  cases op with
  | not => cases h; exact ⟨_, rfl, .boolean _⟩
  | plus | minus =>
    simp only [unary] at h
    split at h
    · rename_i numeric
      cases h
      obtain ⟨n, rfl⟩ := number_sound fits numeric
      exact ⟨_, rfl, .number _⟩
    · cases h

/-- Two numbers give a number, unless one is divided by zero. -/
theorem calculate_ensures (op : Arithmetic) (n m : Float) :
    Ensures (fun _ => True) DependsOnValue (Evaluation.calculate op n m) := by
  unfold Evaluation.calculate
  split
  · trivial
  · trivial
  · trivial
  · split <;> trivial
  · split <;> trivial
  · trivial

theorem calculation_sound {op : Arithmetic} (fitsLeft : v.Conforms l) (fitsRight : w.Conforms r)
    (h : calculation l r = .ok t) :
    Ensures (·.Conforms t) DependsOnValue (Evaluation.calculation op v w) := by
  cases fitsLeft with
  | number n =>
    cases fitsRight with
    | number m =>
      cases h
      exact (calculate_ensures op n m).map fun result _ => .number result
    | boolean _ | string _ | array _ | object _ _ => cases h
  | boolean _ | string _ | array _ | object _ _ => cases fitsRight <;> cases h

theorem join_of_equal (same : l.equal r = true) : join l r = .ok (.array l) := by
  have kinds : l.kind = r.kind := by cases l <;> cases r <;> first | rfl | cases same
  simp [join, kinds]

/-- A sum joins texts as soon as one operand is a string, and it joins two arrays of one schema. -/
theorem sum_sound (fitsLeft : v.Conforms l) (fitsRight : w.Conforms r) (distinct : Distinct l)
    (equal : ∀ a b, l = .array a → r = .array b → a.equal b = true) (h : sum l r = .ok t) :
    Ensures (·.Conforms t) DependsOnValue (Evaluation.sum v w) := by
  have numeric : calculation l r = .ok t →
      Ensures (·.Conforms t) DependsOnValue (Evaluation.calculation .add v w) :=
    calculation_sound fitsLeft fitsRight
  cases fitsLeft with
  | string text =>
    cases fitsRight <;> cases h <;> exact .string _
  | array xs =>
    cases fitsRight with
    | string text => cases h; exact .string _
    | array ys =>
      have same := equal _ _ rfl rfl
      cases (join_of_equal same).symm.trans h
      apply Value.Conforms.array
      intro u member
      rcases List.mem_append.mp member with inLeft | inRight
      · exact xs u inLeft
      · exact conforms_of_equal (ys u inRight) (distinct.part (.item .whole)) same
    | boolean _ | number _ | object _ _ => cases h
  | boolean _ | number _ | object _ _ =>
    cases fitsRight with
    | string text => cases h; exact .string _
    | boolean _ | number _ | array _ | object _ _ => exact numeric h

theorem instant_ensures (v : Value) :
    Ensures (fun _ => True) DependsOnValue (Evaluation.instant v) := by
  unfold Evaluation.instant
  dsimp only
  split <;> trivial

theorem binary_sound {op : BinaryOp} (fitsLeft : v.Conforms l) (fitsRight : w.Conforms r)
    (distinct : Distinct l)
    (equal : op = .arithmetic .add → ∀ a b, l = .array a → r = .array b → a.equal b = true)
    (h : binary op l r = .ok t) :
    Ensures (·.Conforms t) DependsOnValue (Evaluation.binary op v w) := by
  cases op with
  | arithmetic op =>
    cases op with
    | add => exact sum_sound fitsLeft fitsRight distinct (equal rfl) h
    | subtract | multiply | divide | remainder | power =>
      exact calculation_sound fitsLeft fitsRight h
  | inequality op =>
    simp only [binary] at h
    split at h
    · rename_i numeric
      cases h
      obtain ⟨n, rfl⟩ := number_sound fitsLeft numeric.1
      obtain ⟨m, rfl⟩ := number_sound fitsRight numeric.2
      exact .boolean _
    · cases h
  | before | after =>
    cases h
    apply (instant_ensures v).bind
    intro first _
    exact (instant_ensures w).bind fun second _ => .boolean _
  | equal | notEqual | and | or | isIn | contains | startsWith | endsWith =>
    cases h
    exact .boolean _

/-- What is selected has been among the items, and a failure has been one of the condition's. -/
theorem select_ensures {fails : Located RuntimeError → Prop} {items : List Value}
    {condition : Value → Except (Located RuntimeError) Value}
    (each : ∀ v ∈ items, Ensures (fun _ => True) fails (condition v)) :
    Ensures (fun kept => ∀ v ∈ kept, v ∈ items) fails (Evaluation.select o condition items) := by
  induction items with
  | nil => exact fun _ member => member
  | cons item items ih =>
    have rest := ih fun v member => each v (List.mem_cons_of_mem _ member)
    have weaker : ∀ kept : List Value, (∀ v ∈ kept, v ∈ items) → ∀ v ∈ kept, v ∈ item :: items :=
      fun kept inside v member => List.mem_cons_of_mem _ (inside v member)
    have first := each item List.mem_cons_self
    unfold Evaluation.select
    cases judged : condition item with
    | error e =>
      rw [judged] at first
      dsimp only
      split
      · exact first
      · exact rest.mono weaker
    | ok verdict =>
      apply rest.bind
      intro kept inside
      change ∀ v ∈ if verdict.isTruthy then item :: kept else kept, v ∈ item :: items
      split
      · intro v member
        rcases List.mem_cons.mp member with rfl | later
        · exact List.mem_cons_self
        · exact weaker kept inside v later
      · exact weaker kept inside

/-- A filter keeps the shape of the array, whatever its condition gives. -/
theorem filter_sound {item : Schema} {span : Span}
    {condition : Value → Except (Located RuntimeError) Value} (fits : v.Conforms (.array item))
    (each : ∀ u, u.Conforms item →
      Ensures (fun _ => True) (fun e => DependsOnValue e.cause) (condition u)) :
    Ensures (·.Conforms (.array item)) (fun e => DependsOnValue e.cause)
      (Evaluation.filter o v span condition) := by
  cases fits with
  | array items =>
    apply (select_ensures fun u member => each u (items u member)).map
    intro kept inside
    exact .array fun u member => items u (inside u member)

/-- The promise of a check, along the visit that the check and the run share. -/
theorem run_ensures {e : Expr} {input : Value} (known : Known s) (distinct : Distinct s)
    (fits : input.Conforms s) (checked : check o e s = .ok t)
    (sums : SumsMeet o (fun l r => l.equal r = true) e s) :
    Ensures (·.Conforms t) (fun failure => DependsOnValue failure.cause)
      (Evaluation.run o e input) := by
  induction e generalizing s t input with
  | literal value span =>
    cases checked
    cases value with
    | number n => exact .number n
    | string text => exact .string text
  | identifier name span =>
    obtain ⟨v, found, conforms⟩ :=
      identifier_sound fits (Interpretation.meaning_identifier_eq_ok.mp checked)
    change Ensures _ _ (span.locate (Evaluation.identifier o name input))
    rw [found]
    exact conforms
  | field a b span iha ihb =>
    obtain ⟨object, ha, hb⟩ := Interpretation.meaning_field_eq_ok.mp checked
    apply (iha known distinct fits ha sums.1).bind
    intro v conforms
    exact ihb (check_known known ha) (check_distinct distinct ha) conforms hb
      (sums.2 object ha)
  | index a b span iha ihb =>
    obtain ⟨object, ha, indexed, place, hb, made⟩ := Interpretation.meaning_index_eq_ok.mp checked
    apply (iha known distinct fits ha sums.1).bind
    intro v conforms
    obtain ⟨q, found⟩ := sequence_of_indexable conforms indexed
    have allowed : Evaluation.indexable v = .ok () := by rw [Evaluation.indexable, found]
    change Ensures _ _ (span.locate (Evaluation.indexable v) >>= fun _ => _)
    rw [allowed]
    apply (ihb known distinct fits hb (sums.2 object ha indexed)).bind
    intro w conformsPlace
    exact (index_sound conforms conformsPlace indexed made).locate span
  | slice a b span iha ihb =>
    obtain ⟨first, ha, last, hb, made⟩ := Interpretation.meaning_slice_eq_ok.mp checked
    apply (iha known distinct fits ha sums.1).bind
    intro v conformsFirst
    apply (ihb known distinct fits hb (sums.2 first ha)).bind
    intro w conformsLast
    obtain ⟨u, sliced, conforms⟩ := slice_sound conformsFirst conformsLast made
    change Ensures _ _ (span.locate (Evaluation.slice v w))
    rw [sliced]
    exact conforms
  | unary op a span ih =>
    obtain ⟨operand, ha, made⟩ := Interpretation.meaning_unary_eq_ok.mp checked
    apply (ih known distinct fits ha sums).bind
    intro v conformsOperand
    obtain ⟨u, found, conforms⟩ := unary_sound conformsOperand made
    change Ensures _ _ (span.locate (Evaluation.unary op v))
    rw [found]
    exact conforms
  | binary op a b span iha ihb =>
    obtain ⟨left, ha, right, hb, made⟩ := Interpretation.meaning_binary_eq_ok.mp checked
    obtain ⟨sumsLeft, sumsRight, meet⟩ := sums
    apply (iha known distinct fits ha sumsLeft).bind
    intro v conformsLeft
    apply (ihb known distinct fits hb (sumsRight left ha)).bind
    intro w conformsRight
    have equal : op = .arithmetic .add → ∀ l r, left = .array l → right = .array r →
        l.equal r = true := by
      rintro add l r rfl rfl
      exact meet add l r ha hb
    have distinctLeft := check_distinct distinct ha
    exact (binary_sound conformsLeft conformsRight distinctLeft equal made).locate span
  | filter a b span iha ihb =>
    obtain ⟨items, ha, made⟩ := Interpretation.meaning_filter_eq_ok.mp checked
    obtain ⟨rfl, item, rfl | ⟨rfl, _⟩, verdict, judged⟩ := filter_eq_ok.mp made
    · have knownItems := check_known known ha
      have distinctItems := check_distinct distinct ha
      apply (iha known distinct fits ha sums.1).bind
      intro v conforms
      apply filter_sound conforms
      intro u conformsItem
      have judges := ihb (knownItems.part (.item .whole)) (distinctItems.part (.item .whole))
        conformsItem judged (sums.2.1 item ha)
      exact judges.mono fun _ _ => trivial
    · exact absurd rfl (check_known known ha).ne_unknown

/-- A checked expression never meets a value of a wrong shape: on an input of the checked shape it
gives a value of the inferred shape, or it fails for a reason that lies in the values. -/
theorem run_conforms (o : Options) (e : Expr) (s t : Schema) (input : Value)
    (known : Known s) (distinct : Distinct s) (fits : input.Conforms s)
    (checked : check o e s = .ok t)
    (sums : SumsMeet o (fun l r => l.equal r = true) e s) :
    (∃ v, Evaluation.run o e input = .ok v ∧ v.Conforms t) ∨
      ∃ failure, Evaluation.run o e input = .error failure ∧ failure.cause.DependsOnValue := by
  have promise := run_ensures known distinct fits checked sums
  cases outcome : Evaluation.run o e input with
  | ok v =>
    rw [outcome] at promise
    exact .inl ⟨v, rfl, promise⟩
  | error failure =>
    rw [outcome] at promise
    exact .inr ⟨failure, rfl, promise⟩

/-- An array joined with itself, of which the items are kept that equal a text. -/
def doubledMatches : Expr :=
  .filter
    (.binary (.arithmetic .add) (.identifier "xs" ⟨1, 2⟩) (.identifier "xs" ⟨6, 2⟩) ⟨4, 1⟩)
    (.binary .equal (.identifier "@" ⟨16, 1⟩) (.literal (.string "b") ⟨21, 3⟩) ⟨18, 2⟩) ⟨10, 5⟩

theorem run_conforms_doubledMatches :
    let s : Schema := .object [("xs", .array .string)]
    let input : Value := .object [("xs", .array [.string "a", .string "b"])]
    check ⟨true, false⟩ doubledMatches s = .ok (.array .string) ∧
      ((∃ v, Evaluation.run ⟨true, false⟩ doubledMatches input = .ok v ∧
          v.Conforms (.array .string)) ∨
        ∃ failure, Evaluation.run ⟨true, false⟩ doubledMatches input = .error failure ∧
          failure.cause.DependsOnValue) := by
  intro s input
  have parts : ∀ p, Part p s →
      p = .object [("xs", .array .string)] ∨ p = .array .string ∨ p = .string := by
    intro p part
    unfold s at part
    cases part with
    | whole => exact .inl rfl
    | field member inner =>
      cases List.mem_singleton.mp member
      cases inner with
      | whole => exact .inr (.inl rfl)
      | item inner => cases inner; exact .inr (.inr rfl)
  have known : Known s := by
    intro unknown
    rcases parts _ unknown with same | same | same <;> cases same
  have distinct : Distinct s := by
    intro fields part
    rcases parts _ part with same | same | same <;> cases same
    decide
  have fits : input.Conforms s := by
    refine .object (fun key => Iff.rfl) fun key v s held described => ?_
    cases List.mem_singleton.mp (Fields.mem_of_get? held)
    cases List.mem_singleton.mp (Fields.mem_of_get? described)
    apply Value.Conforms.array
    intro v member
    simp only [List.mem_cons, List.not_mem_nil, or_false] at member
    rcases member with rfl | rfl <;> exact .string _
  have sums : SumsMeet ⟨true, false⟩ (fun l r => l.equal r = true) doubledMatches s := by
    have names : ∀ span, check ⟨true, false⟩ (.identifier "xs" span) s = .ok (.array .string) :=
      fun _ => rfl
    refine ⟨⟨trivial, fun _ _ => trivial, fun _ l r hl hr => ?_⟩, fun _ _ => ?_, fun _ => ?_⟩
    · cases (names _).symm.trans hl
      cases (names _).symm.trans hr
      rfl
    · exact ⟨trivial, fun _ _ => trivial, nofun⟩
    · exact ⟨trivial, fun _ _ => trivial, nofun⟩
  exact ⟨rfl, run_conforms _ _ _ _ _ known distinct fits rfl sums⟩

end Typing
end JsonQuery
