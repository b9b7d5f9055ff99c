import JsonQuery.Interpretation
import JsonQuery.Proofs.Outcome

/-! What a visit has gone through. When it succeeds, every subexpression that it reached has a
meaning, and the operation of the node made the result of them. When it fails, it is the first
failure on the way. Interpretations that agree operation by operation wherever the first of them
succeeds agree on whole expressions. -/
namespace JsonQuery.Interpretation

variable {ε α : Type} {i : Interpretation ε α} {a b c : Expr} {span : Span} {ambient r : α}

theorem meaning_literal {value : Literal} :
    i.meaning (.literal value span) ambient = .ok (i.literal value) :=
  rfl

theorem meaning_identifier_eq_ok {name : String} :
    i.meaning (.identifier name span) ambient = .ok r ↔ i.identifier name ambient = .ok r :=
  Span.locate_eq_ok

theorem meaning_field_eq_ok : i.meaning (.field a b span) ambient = .ok r ↔
    ∃ object, i.meaning a ambient = .ok object ∧ i.meaning b object = .ok r :=
  bind_eq_ok

theorem meaning_index_eq_ok : i.meaning (.index a b span) ambient = .ok r ↔
    ∃ object, i.meaning a ambient = .ok object ∧ i.indexable object = .ok () ∧
      ∃ place, i.meaning b ambient = .ok place ∧ i.index object place = .ok r := by
  refine bind_eq_ok.trans (exists_congr fun object => and_congr_right fun _ => ?_)
  rw [check_bind_eq_ok, Span.locate_eq_ok, bind_eq_ok]
  simp only [Span.locate_eq_ok]

theorem meaning_slice_eq_ok : i.meaning (.slice a b span) ambient = .ok r ↔
    ∃ first, i.meaning a ambient = .ok first ∧
      ∃ last, i.meaning b ambient = .ok last ∧ i.slice first last = .ok r := by
  refine bind_eq_ok.trans (exists_congr fun first => and_congr_right fun _ => ?_)
  simp only [bind_eq_ok, Span.locate_eq_ok]

theorem meaning_unary_eq_ok {op : UnaryOp} : i.meaning (.unary op a span) ambient = .ok r ↔
    ∃ operand, i.meaning a ambient = .ok operand ∧ i.unary op operand = .ok r := by
  refine bind_eq_ok.trans (exists_congr fun operand => and_congr_right fun _ => ?_)
  rw [Span.locate_eq_ok]

theorem meaning_binary_eq_ok {op : BinaryOp} : i.meaning (.binary op a b span) ambient = .ok r ↔
    ∃ left, i.meaning a ambient = .ok left ∧
      ∃ right, i.meaning b ambient = .ok right ∧ i.binary op left right = .ok r := by
  refine bind_eq_ok.trans (exists_congr fun left => and_congr_right fun _ => ?_)
  simp only [bind_eq_ok, Span.locate_eq_ok]

theorem meaning_filter_eq_ok : i.meaning (.filter a b span) ambient = .ok r ↔
    ∃ items, i.meaning a ambient = .ok items ∧ i.filter items span (i.meaning b) = .ok r :=
  bind_eq_ok

variable {f : Located ε}

theorem meaning_field_eq_error : i.meaning (.field a b span) ambient = .error f ↔
    i.meaning a ambient = .error f ∨
      ∃ object, i.meaning a ambient = .ok object ∧ i.meaning b object = .error f :=
  bind_eq_error

theorem meaning_index_eq_error : i.meaning (.index a b span) ambient = .error f ↔
    i.meaning a ambient = .error f ∨
      ∃ object, i.meaning a ambient = .ok object ∧
        (span.locate (i.indexable object) = .error f ∨ i.indexable object = .ok () ∧
          (i.meaning b ambient = .error f ∨ ∃ place, i.meaning b ambient = .ok place ∧
            span.locate (i.index object place) = .error f)) := by
  refine bind_eq_error.trans (or_congr_right (exists_congr fun object => ?_))
  refine and_congr_right fun _ => ?_
  refine bind_eq_error.trans (or_congr_right ?_)
  simp only [Span.locate_eq_ok, bind_eq_error]
  exact ⟨fun ⟨_, h⟩ => h, fun h => ⟨(), h⟩⟩

theorem meaning_slice_eq_error : i.meaning (.slice a b span) ambient = .error f ↔
    i.meaning a ambient = .error f ∨
      ∃ first, i.meaning a ambient = .ok first ∧
        (i.meaning b ambient = .error f ∨ ∃ last, i.meaning b ambient = .ok last ∧
          span.locate (i.slice first last) = .error f) :=
  bind_eq_error.trans
    (or_congr_right (exists_congr fun _ => and_congr_right fun _ => bind_eq_error))

theorem meaning_unary_eq_error {op : UnaryOp} : i.meaning (.unary op a span) ambient = .error f ↔
    i.meaning a ambient = .error f ∨
      ∃ operand, i.meaning a ambient = .ok operand ∧ span.locate (i.unary op operand) = .error f :=
  bind_eq_error

theorem meaning_binary_eq_error {op : BinaryOp} :
    i.meaning (.binary op a b span) ambient = .error f ↔
      i.meaning a ambient = .error f ∨
        ∃ left, i.meaning a ambient = .ok left ∧
          (i.meaning b ambient = .error f ∨ ∃ right, i.meaning b ambient = .ok right ∧
            span.locate (i.binary op left right) = .error f) :=
  bind_eq_error.trans
    (or_congr_right (exists_congr fun _ => and_congr_right fun _ => bind_eq_error))

/-- Whatever succeeds under the first interpretation succeeds under the second with the same result.
For a filter, this has to hold for any two conditions that are themselves related in this way. -/
structure Below (i j : Interpretation ε α) : Prop where
  literal : ∀ value, i.literal value = j.literal value
  identifier : ∀ name ambient r,
    i.identifier name ambient = .ok r → j.identifier name ambient = .ok r
  indexable : ∀ object, i.indexable object = .ok () → j.indexable object = .ok ()
  index : ∀ object place r, i.index object place = .ok r → j.index object place = .ok r
  slice : ∀ first last r, i.slice first last = .ok r → j.slice first last = .ok r
  unary : ∀ op operand r, i.unary op operand = .ok r → j.unary op operand = .ok r
  binary : ∀ op left right r, i.binary op left right = .ok r → j.binary op left right = .ok r
  filter : ∀ items span (p q : α → Except (Located ε) α) r,
    (∀ item verdict, p item = .ok verdict → q item = .ok verdict) →
    i.filter items span p = .ok r → j.filter items span q = .ok r

theorem Below.meaning {i j : Interpretation ε α} (below : Below i j) {e : Expr} {ambient r : α}
    (h : i.meaning e ambient = .ok r) : j.meaning e ambient = .ok r := by
  induction e generalizing ambient r with
  | literal value span =>
    rw [meaning_literal] at h ⊢
    rw [← below.literal, h]
  | identifier name span =>
    rw [meaning_identifier_eq_ok] at h ⊢
    exact below.identifier _ _ _ h
  | field a b span iha ihb =>
    obtain ⟨object, ha, hb⟩ := meaning_field_eq_ok.mp h
    exact meaning_field_eq_ok.mpr ⟨object, iha ha, ihb hb⟩
  | index a b span iha ihb =>
    obtain ⟨object, ha, fits, place, hb, made⟩ := meaning_index_eq_ok.mp h
    exact meaning_index_eq_ok.mpr
      ⟨object, iha ha, below.indexable _ fits, place, ihb hb, below.index _ _ _ made⟩
  | slice a b span iha ihb =>
    obtain ⟨first, ha, last, hb, made⟩ := meaning_slice_eq_ok.mp h
    exact meaning_slice_eq_ok.mpr ⟨first, iha ha, last, ihb hb, below.slice _ _ _ made⟩
  | unary op a span ih =>
    obtain ⟨operand, ha, made⟩ := meaning_unary_eq_ok.mp h
    exact meaning_unary_eq_ok.mpr ⟨operand, ih ha, below.unary _ _ _ made⟩
  | binary op a b span iha ihb =>
    obtain ⟨left, ha, right, hb, made⟩ := meaning_binary_eq_ok.mp h
    exact meaning_binary_eq_ok.mpr ⟨left, iha ha, right, ihb hb, below.binary _ _ _ _ made⟩
  | filter a b span iha ihb =>
    obtain ⟨items, ha, made⟩ := meaning_filter_eq_ok.mp h
    exact meaning_filter_eq_ok.mpr
      ⟨items, iha ha, below.filter _ _ _ _ _ (fun _ _ => ihb) made⟩

end JsonQuery.Interpretation
