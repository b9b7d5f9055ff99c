import JsonQuery.Proofs.Interpretation.Visit
import JsonQuery.Proofs.Schema.Conformance
import JsonQuery.Typing.Check

/-! Where the schema of a result comes from. The checker takes schemas apart and hands out their
parts, and all that it adds are the schemas of plain results. What holds of every part of the input
therefore holds of every part of the result. -/
namespace JsonQuery.Typing
open Schema

/-- The schemas that operations make by themselves. -/
inductive Plain : Schema → Prop where
  | boolean : Plain .boolean
  | number : Plain .number
  | string : Plain .string
  | bounds : Plain (.array .number)

variable {o : Options} {p r s t object place left right : Schema}

theorem Plain.part (plain : Plain s) (part : Part p s) : Plain p := by
  cases plain with
  | boolean => cases part; exact .boolean
  | number => cases part; exact .number
  | string => cases part; exact .string
  | bounds =>
    cases part with
    | whole => exact .bounds
    | item inner => cases inner; exact .number

theorem special?_plain {name : String} (h : special? name s = some t) : Plain t := by
  unfold special? at h
  split at h
  · split at h
    · cases h; exact .number
    · split at h
      · cases h; exact .string
      · cases h
  · split at h
    · cases h; exact .number
    · cases h
  · cases h

theorem property?_part {name : String} (h : s.property? name = some t) : Part t s := by
  cases s with
  | object fields => exact .field (Fields.mem_of_get? h) .whole
  | _ => cases h

theorem identifier_parts {name : String} (h : identifier o name s = .ok t) (part : Part p t) :
    Part p s ∨ Plain p := by
  unfold identifier at h
  split at h
  · cases h
    exact .inl part
  · split at h
    · rename_i found
      cases h
      rcases Option.or_eq_some_iff.mp found with special | ⟨_, property⟩
      · exact .inr ((special?_plain special).part part)
      · exact .inl (part.trans (property?_part property))
    · split at h
      · cases h
        exact .inl part
      · split at h
        · cases h
          exact .inr (Plain.string.part part)
        · cases h

theorem index_parts (h : index object place = .ok t) (part : Part p t) :
    Part p object ∨ Part p place := by
  cases place with
  | array _ => cases h; exact .inl part
  | unknown => cases h; exact .inr part
  | number =>
    cases object with
    | array item => cases h; exact .inl (.item part)
    | _ => cases h; exact .inl part
  | _ => cases h

theorem slice_plain (h : slice left right = .ok t) : Plain t := by
  unfold slice at h
  split at h
  · cases h
  · split at h <;> cases h
    exact .bounds

theorem unary_plain {op : UnaryOp} (h : unary op s = .ok t) : Plain t := by
  cases op with
  | not => cases h; exact .boolean
  | plus | minus =>
    simp only [unary] at h
    split at h <;> cases h
    exact .number

theorem calculation_parts (h : calculation left right = .ok t) (part : Part p t) :
    Part p left ∨ Part p right ∨ Plain p := by
  unfold calculation at h
  split at h
  · cases h; exact .inl part
  · cases h; exact .inr (.inl part)
  · cases h; exact .inr (.inr (Plain.number.part part))
  · cases h

theorem join_parts (h : join left right = .ok t) (part : Part p t) :
    Part p (.array left) ∨ Part p (.array right) := by
  unfold join at h
  split at h
  · cases h; exact .inl part
  · split at h <;> cases h
    exact .inr part

theorem sum_parts (h : sum left right = .ok t) (part : Part p t) :
    Part p left ∨ Part p right ∨ Plain p := by
  unfold sum at h
  split at h
  · cases h; exact .inr (.inr (Plain.string.part part))
  · cases h; exact .inr (.inr (Plain.string.part part))
  · rcases join_parts h part with first | second
    · exact .inl first
    · exact .inr (.inl second)
  · exact calculation_parts h part

theorem binary_parts {op : BinaryOp} (h : binary op left right = .ok t) (part : Part p t) :
    Part p left ∨ Part p right ∨ Plain p := by
  unfold binary at h
  split at h
  · exact sum_parts h part
  · exact calculation_parts h part
  · split at h <;> cases h
    exact .inr (.inr (Plain.boolean.part part))
  · cases h
    exact .inr (.inr (Plain.boolean.part part))

theorem filter_eq_ok {span : Span} {condition : Schema → Except (Located TypeError) Schema} :
    filter s span condition = .ok t ↔
      t = s ∧ ∃ item, (s = .array item ∨ s = .unknown ∧ item = .unknown) ∧
        ∃ verdict, condition item = .ok verdict := by
  unfold filter
  rw [bind_eq_ok]
  simp only [Span.locate_eq_ok, bind_eq_ok, pure, Except.pure, Except.ok.injEq]
  constructor
  · rintro ⟨item, found, verdict, judged, rfl⟩
    refine ⟨rfl, item, ?_, verdict, judged⟩
    cases s with
    | array a => cases found; exact .inl rfl
    | unknown => cases found; exact .inr ⟨rfl, rfl⟩
    | _ => cases found
  · rintro ⟨rfl, item, rfl | ⟨rfl, rfl⟩, verdict, judged⟩
    · exact ⟨item, rfl, verdict, judged, rfl⟩
    · exact ⟨.unknown, rfl, verdict, judged, rfl⟩

/-- Every part of a result's schema is a part of the input's or one that an operation made. -/
theorem check_parts {e : Expr} (h : check o e s = .ok t) (part : Part p t) :
    Part p s ∨ Plain p := by
  induction e generalizing s t with
  | literal value span =>
    cases h
    cases value with
    | number n => exact .inr (Plain.number.part part)
    | string text => exact .inr (Plain.string.part part)
  | identifier name span =>
    exact identifier_parts (Interpretation.meaning_identifier_eq_ok.mp h) part
  | field a b span iha ihb =>
    obtain ⟨object, ha, hb⟩ := Interpretation.meaning_field_eq_ok.mp h
    rcases ihb hb part with inner | plain
    · exact iha ha inner
    · exact .inr plain
  | index a b span iha ihb =>
    obtain ⟨object, ha, _, place, hb, made⟩ := Interpretation.meaning_index_eq_ok.mp h
    rcases index_parts made part with inner | inner
    · exact iha ha inner
    · exact ihb hb inner
  | slice a b span =>
    obtain ⟨first, _, last, _, made⟩ := Interpretation.meaning_slice_eq_ok.mp h
    exact .inr ((slice_plain made).part part)
  | unary op a span =>
    obtain ⟨operand, _, made⟩ := Interpretation.meaning_unary_eq_ok.mp h
    exact .inr ((unary_plain made).part part)
  | binary op a b span iha ihb =>
    obtain ⟨left, ha, right, hb, made⟩ := Interpretation.meaning_binary_eq_ok.mp h
    rcases binary_parts made part with inner | inner | plain
    · exact iha ha inner
    · exact ihb hb inner
    · exact .inr plain
  | filter a b span iha _ =>
    obtain ⟨items, ha, made⟩ := Interpretation.meaning_filter_eq_ok.mp h
    obtain ⟨rfl, _⟩ := filter_eq_ok.mp made
    exact iha ha part

theorem check_known {e : Expr} (known : Known s) (h : check o e s = .ok t) : Known t := by
  intro unknown
  rcases check_parts h unknown with inner | plain
  · exact known inner
  · cases plain

theorem check_distinct {e : Expr} (distinct : Distinct s) (h : check o e s = .ok t) :
    Distinct t := by
  intro fields part
  rcases check_parts h part with inner | plain
  · exact distinct fields inner
  · cases plain

end JsonQuery.Typing
