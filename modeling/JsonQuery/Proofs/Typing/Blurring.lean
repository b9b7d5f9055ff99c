import JsonQuery.Proofs.Schema.Blurring
import JsonQuery.Proofs.Typing.Soundness
import JsonQuery.Query

/-! Checking with less information. Where a schema passes, every blurring of it passes, and the
result is a blurring of the result. Sums of arrays take part if the items of both have one schema or
nothing is known of some: the checker compares items by their kinds alone, and gives a sum the
schema of one side. -/
namespace JsonQuery.Typing
open Schema

variable {o : Options} {s s' t l l' r r' object object' place place' : Schema}

theorem Plain.blurs (plain : Plain s) : Blurs s s := by
  cases plain with
  | boolean => exact .boolean
  | number => exact .number
  | string => exact .string
  | bounds => exact .array .number

/-- A name that strings or arrays answer to stands for the same whatever the items are. -/
theorem special?_blurs (name : String) (s : Schema) :
    Option.Rel Blurs (special? name s) (special? name s) := by
  cases found : special? name s with
  | none => exact .none
  | some t => exact .some (special?_plain found).blurs

/-- A blurred schema knows the same names, unless it is unknown itself. -/
theorem lookup_blurs (blurred : Blurs s' s) (known : s' ≠ .unknown) (name : String) :
    Option.Rel Blurs ((special? name s').or (s'.property? name))
      ((special? name s).or (s.property? name)) := by
  cases blurred with
  | unknown s => exact absurd rfl known
  | boolean | number => exact .none
  | string | array _ =>
    simp only [property?, Option.or_none]
    exact special?_blurs name _
  | @object fields' fields keys values =>
    have same := keys name
    rw [← Fields.isSome_get?_iff, ← Fields.isSome_get?_iff] at same
    simp only [special?, property?, Option.none_or]
    cases found' : Fields.get? name fields' with
    | none =>
      have absent : Fields.get? name fields = none := by simpa [found'] using same
      rw [absent]
      exact .none
    | some t' =>
      obtain ⟨t, found⟩ := Option.isSome_iff_exists.mp (same.mp (by rw [found']; rfl))
      rw [found]
      exact .some (values name t' t found' found)

theorem identifier_unknown (name : String) : identifier o name .unknown = .ok .unknown := by
  by_cases self : name = "@"
  · exact if_pos self
  · exact if_neg self

/-- A name stands for less, and a name that stands for itself still does so. -/
theorem identifier_blurs {name : String} (blurred : Blurs s' s) (h : identifier o name s = .ok t) :
    ∃ t', identifier o name s' = .ok t' ∧ Blurs t' t := by
  by_cases unknown : s' = .unknown
  · subst unknown
    exact ⟨.unknown, identifier_unknown name, .unknown t⟩
  by_cases self : name = "@"
  · simp only [identifier, if_pos self] at h ⊢
    cases h
    exact ⟨s', rfl, blurred⟩
  simp only [identifier, if_neg self] at h ⊢
  have related := lookup_blurs blurred unknown name
  generalize (special? name s').or (s'.property? name) = found',
    (special? name s).or (s.property? name) = found at h related ⊢
  cases related with
  | some inner =>
    cases h
    exact ⟨_, rfl, inner⟩
  | none =>
    cases blurred with
    | unknown s => exact absurd rfl unknown
    | boolean | number | string | array _ | object _ _ =>
      dsimp only at h ⊢
      split at h <;> cases h
      rename_i fallback
      exact ⟨.string, if_pos fallback, .string⟩

theorem indexable_blurs (blurred : Blurs object' object) (h : indexable object = .ok ()) :
    indexable object' = .ok () := by
  cases blurred with
  | unknown object | string | array _ => rfl
  | boolean | number | object _ _ => cases h

theorem index_blurs (blurred : Blurs object' object) (blurredPlace : Blurs place' place)
    (h : index object place = .ok t) : ∃ t', index object' place' = .ok t' ∧ Blurs t' t := by
  have whole := blurred
  cases blurredPlace with
  | unknown place => exact ⟨.unknown, rfl, .unknown t⟩
  | array _ =>
    cases h
    exact ⟨object', rfl, blurred⟩
  | number =>
    cases blurred with
    | unknown object => exact ⟨.unknown, rfl, .unknown t⟩
    | array inner =>
      cases h
      exact ⟨_, rfl, inner⟩
    | boolean | number | string | object _ _ =>
      cases h
      exact ⟨_, rfl, whole⟩
  | boolean | string | object _ _ => cases h

theorem isNumeric_blurs (blurred : Blurs s' s) (h : isNumeric s = true) :
    isNumeric s' = true := by
  cases blurred with
  | unknown s | number => rfl
  | boolean | string | array _ | object _ _ => cases h

theorem slice_blurs (first : Blurs l' l) (last : Blurs r' r) (h : slice l r = .ok t) :
    ∃ t', slice l' r' = .ok t' ∧ Blurs t' t := by
  simp only [slice, ite_not] at h ⊢
  split at h
  · rename_i numeric
    split at h
    · rename_i numeric'
      cases h
      rw [if_pos (isNumeric_blurs first numeric), if_pos (isNumeric_blurs last numeric')]
      exact ⟨.array .number, rfl, .array .number⟩
    · cases h
  · cases h

theorem unary_blurs {op : UnaryOp} (blurred : Blurs s' s) (h : unary op s = .ok t) :
    ∃ t', unary op s' = .ok t' ∧ Blurs t' t := by
  cases op with
  | not =>
    cases h
    exact ⟨.boolean, rfl, .boolean⟩
  | plus | minus =>
    simp only [unary] at h ⊢
    split at h
    · rename_i numeric
      cases h
      rw [if_pos (isNumeric_blurs blurred numeric)]
      exact ⟨.number, rfl, .number⟩
    · cases h

theorem calculation_blurs (left : Blurs l' l) (right : Blurs r' r) (h : calculation l r = .ok t) :
    ∃ t', calculation l' r' = .ok t' ∧ Blurs t' t := by
  cases left with
  | unknown l => exact ⟨.unknown, rfl, .unknown t⟩
  | number =>
    cases right with
    | unknown r => exact ⟨.unknown, rfl, .unknown t⟩
    | number =>
      cases h
      exact ⟨.number, rfl, .number⟩
    | boolean | string | array _ | object _ _ => cases h
  | boolean | string | array _ | object _ _ =>
    cases right with
    | unknown r => exact ⟨.unknown, rfl, .unknown t⟩
    | boolean | number | string | array _ | object _ _ => cases h

theorem join_unknown_left (r : Schema) : join .unknown r = .ok (.array r) := by
  cases r <;> rfl

theorem join_unknown_right (l : Schema) : join l .unknown = .ok (.array l) := if_pos (.inl rfl)

/-- The side that gives the schema of a sum may change when parts are forgotten. What it gives then
blurs the schema of the other side too, since both sides had the same one. -/
theorem join_blurs (left : Blurs l' l) (right : Blurs r' r) (distinct : Distinct l)
    (compatible : Compatible l r) (h : join l r = .ok t) :
    ∃ t', join l' r' = .ok t' ∧ Blurs t' t := by
  rcases compatible with same | rfl | rfl
  · cases (join_of_equal same).symm.trans h
    by_cases unknown : l' = .unknown
    · subst unknown
      exact ⟨_, join_unknown_left r', .array (right.of_equal distinct same)⟩
    by_cases unknown' : r' = .unknown
    · subst unknown'
      exact ⟨_, join_unknown_right l', .array left⟩
    have kinds : l'.kind = r'.kind := by
      rw [left.kind_eq unknown, right.kind_eq unknown', kind_eq_of_equal same]
    exact ⟨_, if_pos (.inr kinds), .array left⟩
  · cases (join_unknown_left r).symm.trans h
    cases left
    exact ⟨_, join_unknown_left r', .array right⟩
  · cases (join_unknown_right l).symm.trans h
    cases right
    exact ⟨_, join_unknown_right l', .array left⟩

theorem sum_blurs (left : Blurs l' l) (right : Blurs r' r) (distinct : Distinct l)
    (compatible : ∀ a b, l = .array a → r = .array b → Compatible a b) (h : sum l r = .ok t) :
    ∃ t', sum l' r' = .ok t' ∧ Blurs t' t := by
  have numeric : calculation l r = .ok t → ∃ t', calculation l' r' = .ok t' ∧ Blurs t' t :=
    calculation_blurs left right
  cases left with
  | unknown l =>
    cases right with
    | string =>
      have same : sum l .string = .ok .string := by cases l <;> rfl
      cases same.symm.trans h
      exact ⟨.string, rfl, .string⟩
    | unknown _ | boolean | number | array _ | object _ _ => exact ⟨.unknown, rfl, .unknown t⟩
  | string =>
    cases h
    exact ⟨.string, rfl, .string⟩
  | array inner =>
    cases right with
    | unknown r => exact ⟨.unknown, rfl, .unknown t⟩
    | string =>
      cases h
      exact ⟨.string, rfl, .string⟩
    | array inner' =>
      exact join_blurs inner inner' (distinct.part (.item .whole)) (compatible _ _ rfl rfl) h
    | boolean | number | object _ _ => cases h
  | boolean | number | object _ _ =>
    cases right with
    | unknown r => exact ⟨.unknown, rfl, .unknown t⟩
    | string =>
      cases h
      exact ⟨.string, rfl, .string⟩
    | boolean | number | array _ | object _ _ => exact numeric h

theorem binary_blurs {op : BinaryOp} (left : Blurs l' l) (right : Blurs r' r)
    (distinct : Distinct l)
    (compatible : op = .arithmetic .add → ∀ a b, l = .array a → r = .array b → Compatible a b)
    (h : binary op l r = .ok t) : ∃ t', binary op l' r' = .ok t' ∧ Blurs t' t := by
  cases op with
  | arithmetic op =>
    cases op with
    | add => exact sum_blurs left right distinct (compatible rfl) h
    | subtract | multiply | divide | remainder | power => exact calculation_blurs left right h
  | inequality op =>
    simp only [binary] at h ⊢
    split at h
    · rename_i numeric
      cases h
      rw [if_pos ⟨isNumeric_blurs left numeric.1, isNumeric_blurs right numeric.2⟩]
      exact ⟨.boolean, rfl, .boolean⟩
    · cases h
  | equal | notEqual | and | or | isIn | contains | startsWith | endsWith | before | after =>
    cases h
    exact ⟨.boolean, rfl, .boolean⟩

/-- The condition is checked against less of an item, or against an item that is unknown. -/
theorem filter_blurs {span : Span} {condition : Schema → Except (Located TypeError) Schema}
    (blurred : Blurs s' s)
    (judges : ∀ item item' verdict, (s = .array item ∨ s = .unknown ∧ item = .unknown) →
      Blurs item' item → condition item = .ok verdict → ∃ verdict', condition item' = .ok verdict')
    (h : filter s span condition = .ok t) :
    ∃ t', filter s' span condition = .ok t' ∧ Blurs t' t := by
  obtain ⟨rfl, item, known, verdict, judged⟩ := filter_eq_ok.mp h
  refine ⟨s', filter_eq_ok.mpr ⟨rfl, ?_⟩, blurred⟩
  cases blurred with
  | unknown s =>
    exact ⟨.unknown, .inr ⟨rfl, rfl⟩, judges item .unknown verdict known (.unknown item) judged⟩
  | array inner =>
    rcases known with same | ⟨other, -⟩
    · cases same
      exact ⟨_, .inl rfl, judges _ _ verdict (.inl rfl) inner judged⟩
    · cases other
  | boolean | number | string | object _ _ => rcases known with other | ⟨other, -⟩ <;> cases other

/-- By induction on the expression. What a subexpression is checked to be is blurred, and so is the
item that a condition or a member is checked against. -/
theorem check_blurs {e : Expr} (blurred : Blurs s' s) (distinct : Distinct s)
    (sums : SumsMeet o Compatible e s) (checked : check o e s = .ok t) :
    ∃ t', check o e s' = .ok t' ∧ Blurs t' t := by
  induction e generalizing s s' t with
  | literal value span =>
    cases checked
    cases value with
    | number n => exact ⟨.number, rfl, .number⟩
    | string text => exact ⟨.string, rfl, .string⟩
  | identifier name span =>
    obtain ⟨t', found, blurs⟩ :=
      identifier_blurs blurred (Interpretation.meaning_identifier_eq_ok.mp checked)
    exact ⟨t', Interpretation.meaning_identifier_eq_ok.mpr found, blurs⟩
  | field a b span iha ihb =>
    obtain ⟨object, ha, hb⟩ := Interpretation.meaning_field_eq_ok.mp checked
    obtain ⟨object', ha', blurs⟩ := iha blurred distinct sums.1 ha
    obtain ⟨t', hb', blurs'⟩ := ihb blurs (check_distinct distinct ha) (sums.2 object ha) hb
    exact ⟨t', Interpretation.meaning_field_eq_ok.mpr ⟨object', ha', hb'⟩, blurs'⟩
  | index a b span iha ihb =>
    obtain ⟨object, ha, indexed, place, hb, made⟩ := Interpretation.meaning_index_eq_ok.mp checked
    obtain ⟨object', ha', blurs⟩ := iha blurred distinct sums.1 ha
    obtain ⟨place', hb', blurs'⟩ := ihb blurred distinct (sums.2 object ha indexed) hb
    obtain ⟨t', made', blurs''⟩ := index_blurs blurs blurs' made
    exact ⟨t', Interpretation.meaning_index_eq_ok.mpr
      ⟨object', ha', indexable_blurs blurs indexed, place', hb', made'⟩, blurs''⟩
  | slice a b span iha ihb =>
    obtain ⟨first, ha, last, hb, made⟩ := Interpretation.meaning_slice_eq_ok.mp checked
    obtain ⟨first', ha', blurs⟩ := iha blurred distinct sums.1 ha
    obtain ⟨last', hb', blurs'⟩ := ihb blurred distinct (sums.2 first ha) hb
    obtain ⟨t', made', blurs''⟩ := slice_blurs blurs blurs' made
    exact ⟨t', Interpretation.meaning_slice_eq_ok.mpr ⟨first', ha', last', hb', made'⟩, blurs''⟩
  | unary op a span ih =>
    obtain ⟨operand, ha, made⟩ := Interpretation.meaning_unary_eq_ok.mp checked
    obtain ⟨operand', ha', blurs⟩ := ih blurred distinct sums ha
    obtain ⟨t', made', blurs'⟩ := unary_blurs blurs made
    exact ⟨t', Interpretation.meaning_unary_eq_ok.mpr ⟨operand', ha', made'⟩, blurs'⟩
  | binary op a b span iha ihb =>
    obtain ⟨left, ha, right, hb, made⟩ := Interpretation.meaning_binary_eq_ok.mp checked
    obtain ⟨sumsLeft, sumsRight, meet⟩ := sums
    obtain ⟨left', ha', blurs⟩ := iha blurred distinct sumsLeft ha
    obtain ⟨right', hb', blurs'⟩ := ihb blurred distinct (sumsRight left ha) hb
    have compatible : op = .arithmetic .add → ∀ l r, left = .array l → right = .array r →
        Compatible l r := by
      rintro add l r rfl rfl
      exact meet add l r ha hb
    obtain ⟨t', made', blurs''⟩ :=
      binary_blurs blurs blurs' (check_distinct distinct ha) compatible made
    exact ⟨t', Interpretation.meaning_binary_eq_ok.mpr ⟨left', ha', right', hb', made'⟩, blurs''⟩
  | filter a b span iha ihb =>
    obtain ⟨items, ha, made⟩ := Interpretation.meaning_filter_eq_ok.mp checked
    obtain ⟨items', ha', blurs⟩ := iha blurred distinct sums.1 ha
    have distinctItems := check_distinct distinct ha
    have judges : ∀ item item' verdict,
        (items = .array item ∨ items = .unknown ∧ item = .unknown) → Blurs item' item →
        check o b item = .ok verdict → ∃ verdict', check o b item' = .ok verdict' := by
      rintro item item' verdict (rfl | ⟨rfl, rfl⟩) blursItem judged
      · have distinctItem := distinctItems.part (.item .whole)
        obtain ⟨verdict', judged', -⟩ := ihb blursItem distinctItem (sums.2.1 item ha) judged
        exact ⟨verdict', judged'⟩
      · obtain ⟨verdict', judged', -⟩ := ihb blursItem distinctItems (sums.2.2 ha) judged
        exact ⟨verdict', judged'⟩
    obtain ⟨t', made', blurs'⟩ := filter_blurs blurs judges made
    exact ⟨t', Interpretation.meaning_filter_eq_ok.mpr ⟨items', ha', made'⟩, blurs'⟩

theorem query_check_eq_ok {e : Expr} {sample : Value} :
    Query.check o e sample = .ok t ↔ check o e (.ofValue sample) = .ok t := by
  rw [Query.check]
  cases check o e (.ofValue sample) <;> simp [Except.mapError]

/-- Less information never makes the checker stricter. What passes on a schema passes on each
blurring of it, with a blurring of the result. So no example is rejected for its nulls and empty
arrays where a fuller one is accepted. -/
theorem check_of_less (o : Options) (e : Expr) :
    (∀ s s' t, Distinct s → Blurs s' s → SumsMeet o Compatible e s → check o e s = .ok t →
      ∃ t', check o e s' = .ok t' ∧ Blurs t' t) ∧
    ∀ sample sample' t, sample.Distinct → sample'.Sparser sample →
      SumsMeet o Compatible e (.ofValue sample) → Query.check o e sample = .ok t →
      ∃ t', Query.check o e sample' = .ok t' ∧ Blurs t' t := by
  constructor
  · intro s s' t distinct blurred sums checked
    exact check_blurs blurred distinct sums checked
  · intro sample sample' t distinct sparser sums checked
    obtain ⟨t', passed, blurs⟩ := check_blurs sparser.blurs (distinct_ofValue distinct) sums
      (query_check_eq_ok.mp checked)
    exact ⟨t', query_check_eq_ok.mpr passed, blurs⟩

/-- `(xs + ys) where x > 1`, of arrays whose items may list their keys in any order. -/
def joinedMatches : Expr :=
  .filter
    (.binary (.arithmetic .add) (.identifier "xs" ⟨1, 2⟩) (.identifier "ys" ⟨6, 2⟩) ⟨4, 1⟩)
    (.binary (.inequality .greater) (.identifier "x" ⟨16, 1⟩) (.literal (.number 1) ⟨20, 1⟩)
      ⟨18, 1⟩) ⟨10, 5⟩

/-- Without an example of the first items, those of the other array stand for both. -/
theorem check_of_less_joinedMatches :
    let sample : Value := .object
      [("xs", .array [.object [("x", .number 1), ("y", .string "a")]]),
        ("ys", .array [.object [("y", .string "b"), ("x", .number 2)]])]
    let sample' : Value := .object
      [("xs", .array []), ("ys", .array [.object [("y", .null), ("x", .number 2)]])]
    let t : Schema := .array (.object [("x", .number), ("y", .string)])
    (check ⟨true, false⟩ joinedMatches (.ofValue sample) = .ok t ∧
        ∃ t', check ⟨true, false⟩ joinedMatches (.ofValue sample') = .ok t' ∧ Blurs t' t) ∧
      Query.check ⟨true, false⟩ joinedMatches sample = .ok t ∧
        ∃ t', Query.check ⟨true, false⟩ joinedMatches sample' = .ok t' ∧ Blurs t' t := by
  intro sample sample' t
  have distinct : sample.Distinct := by simp [sample, Fields.keys]
  have sparser : sample'.Sparser sample :=
    .cons (.empty _) (.cons (.array _ _ (.cons (.null _) (.cons (.number _ _) .nil))) .nil)
  have sums : SumsMeet ⟨true, false⟩ Compatible joinedMatches (.ofValue sample) := by
    refine ⟨⟨trivial, fun _ _ => trivial, fun _ l r hl hr => ?_⟩, fun _ _ => ?_, fun _ => ?_⟩
    · cases hl
      cases hr
      exact .inl (by decide)
    · exact ⟨trivial, fun _ _ => trivial, fun sum => by cases sum⟩
    · exact ⟨trivial, fun _ _ => trivial, fun sum => by cases sum⟩
  have less := check_of_less ⟨true, false⟩ joinedMatches
  exact ⟨⟨rfl, less.1 _ _ _ (distinct_ofValue distinct) sparser.blurs sums rfl⟩,
    rfl, less.2 _ _ _ distinct sparser sums rfl⟩

end JsonQuery.Typing
