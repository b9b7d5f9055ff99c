import JsonQuery.Text.Basic

/-! Spans of whole characters. A text is cut there without a loss, and a place between characters is
given by the text before it. -/
namespace JsonQuery

namespace Text

theorem cutBefore_bytes (before after : List Char) :
    cutBefore (bytes before) (before ++ after) = (before, after) := by
  induction before with
  | nil =>
    cases after with
    | nil => rfl
    | cons c cs =>
      have wide := c.utf8Size_pos
      have none : ¬c.utf8Size ≤ bytes [] := by
        rw [bytes_nil]
        omega
      rw [List.nil_append, cutBefore, if_neg none]
  | cons c before ih =>
    rw [bytes_cons, List.cons_append, cutBefore, if_pos (Nat.le_add_right _ _),
      Nat.add_sub_cancel_left, ih]

theorem cut?_bytes (before after : List Char) :
    cut? (bytes before) (before ++ after) = some (before, after) := by
  induction before with
  | nil => cases after <;> rfl
  | cons c before ih =>
    have wide := c.utf8Size_pos
    obtain ⟨n, more⟩ : ∃ n, bytes (c :: before) = n + 1 :=
      Nat.exists_eq_succ_of_ne_zero (by rw [bytes_cons]; omega)
    have fits : c.utf8Size ≤ n + 1 := by
      rw [← more, bytes_cons]
      omega
    have left : n + 1 - c.utf8Size = bytes before := by
      rw [← more, bytes_cons]
      omega
    rw [more, List.cons_append, cut?, if_pos fits, left, ih]
    rfl

end Text

/-- A span covers some characters of a text, and none of them in part. -/
def Span.Within (s : Span) (text : List Char) : Prop :=
  ∃ before inside after, text = before ++ inside ++ after ∧
    s.offset = Text.bytes before ∧ s.length = Text.bytes inside

namespace Span.Within

variable {s : Span} {text : List Char}

/-- The place at which a span begins. -/
theorem start (h : s.Within text) : Within ⟨s.offset, 0⟩ text := by
  obtain ⟨before, inside, after, rfl, offset, _⟩ := h
  exact ⟨before, [], inside ++ after, by simp, offset, rfl⟩

end Span.Within
end JsonQuery
