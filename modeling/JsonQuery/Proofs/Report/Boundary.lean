import JsonQuery.Proofs.Report.Drawing

/-! Which spans can be drawn. A drawing takes parts of its source between four byte positions. Three
of them always lie between characters, whatever the span. The fourth is the end of what is marked,
and only when it lies between characters as well is there a drawing. -/
namespace JsonQuery

namespace Text

variable {n : Nat} {cs before after : List Char}

/-- A byte position between two characters of a text, or at one of its ends. -/
def IsBoundary (n : Nat) (cs : List Char) : Prop :=
  ∃ before after, cs = before ++ after ∧ n = bytes before

theorem isBoundary_bytes (before after : List Char) : IsBoundary (bytes before) (before ++ after) :=
  ⟨before, after, rfl, rfl⟩

theorem IsBoundary.le (h : IsBoundary n cs) : n ≤ bytes cs := by
  obtain ⟨before, after, rfl, rfl⟩ := h
  rw [bytes_append]
  exact Nat.le_add_right _ _

theorem eq_nil_of_bytes_eq_zero (none : bytes cs = 0) : cs = [] := by
  have length := length_le_bytes cs
  exact List.length_eq_zero_iff.mp (by omega)

/-- A text can be cut at its boundaries and nowhere else. -/
theorem isSome_cut?_iff : (cut? n cs).isSome = true ↔ IsBoundary n cs := by
  constructor
  · fun_induction cut? n cs with
    | case1 cs => exact fun _ => isBoundary_bytes [] cs
    | case2 n => nofun
    | case3 n c cs fits ih =>
      rw [Option.isSome_map]
      intro found
      obtain ⟨before, after, rfl, place⟩ := ih found
      exact ⟨c :: before, after, rfl, by rw [bytes_cons]; omega⟩
    | case4 n c cs short => nofun
  · rintro ⟨before, after, rfl, rfl⟩
    rw [cut?_bytes]
    rfl

/-- Behind a part of a text the boundaries are those of the remainder. -/
theorem isBoundary_append_iff :
    IsBoundary (bytes before + n) (before ++ after) ↔ IsBoundary n after := by
  constructor
  · rintro ⟨first, rest, split, place⟩
    rcases List.append_eq_append_iff.mp split with ⟨more, rfl, rfl⟩ | ⟨more, rfl, rfl⟩
    · refine ⟨more, rest, rfl, ?_⟩
      rw [bytes_append] at place
      omega
    · rw [bytes_append] at place
      exact ⟨[], after, rfl, by rw [bytes_nil]; omega⟩
  · rintro ⟨first, rest, rfl, rfl⟩
    exact ⟨before ++ first, rest, by rw [List.append_assoc], by rw [bytes_append]⟩

/-- Up to the end of a part of a text the boundaries are those of the part. -/
theorem isBoundary_of_le_iff (inside : n ≤ bytes before) :
    IsBoundary n (before ++ after) ↔ IsBoundary n before := by
  constructor
  · rintro ⟨first, rest, split, rfl⟩
    rcases List.append_eq_append_iff.mp split with ⟨more, rfl, rfl⟩ | ⟨more, rfl, rfl⟩
    · rw [bytes_append] at inside
      have none : more = [] := eq_nil_of_bytes_eq_zero (by omega)
      subst none
      exact ⟨before, [], by rw [List.append_nil], by rw [List.append_nil]⟩
    · exact isBoundary_bytes first more
  · rintro ⟨first, rest, rfl, rfl⟩
    exact ⟨first, rest ++ after, by rw [List.append_assoc], rfl⟩

/-- A position that need not be a boundary is moved back, and no farther than to the last one. -/
theorem bytes_cutBefore_le (n : Nat) (cs : List Char) : bytes (cutBefore n cs).1 ≤ n := by
  fun_induction cutBefore n cs with
  | case1 n => exact Nat.zero_le n
  | case2 n c cs fits before after cut ih =>
    rw [cut] at ih
    simp only [bytes_cons] at ih ⊢
    omega
  | case3 n c cs short => exact Nat.zero_le n

theorem IsBoundary.le_bytes_cutBefore {m : Nat} (h : IsBoundary m cs) (le : m ≤ n) :
    m ≤ bytes (cutBefore n cs).1 := by
  fun_induction cutBefore n cs generalizing m with
  | case1 n => exact h.le
  | case2 n c cs fits before after cut ih =>
    obtain ⟨first, rest, split, rfl⟩ := h
    cases first with
    | nil => exact Nat.zero_le _
    | cons d first =>
      obtain ⟨rfl, rfl⟩ := List.cons.inj split
      rw [bytes_cons] at le
      have inner := ih (isBoundary_bytes first rest) (by omega)
      rw [cut] at inner
      simp only [bytes_cons] at inner ⊢
      omega
  | case3 n c cs short =>
    obtain ⟨first, rest, split, rfl⟩ := h
    cases first with
    | nil => exact Nat.le_refl _
    | cons d first =>
      obtain ⟨rfl, rfl⟩ := List.cons.inj split
      rw [bytes_cons] at le
      omega

end Text

namespace Report

/-- The byte positions between which a drawing takes parts of its source: the beginning and the end
of the line, and between them the beginning and the end of what is marked. -/
structure Cuts where
  lineStart : Nat
  markStart : Nat
  markStop : Nat
  lineStop : Nat

/-- The positions for a span. The mark begins at the last boundary up to the offset, and it ends
after as many bytes as the span has, or with the line. -/
def cuts (span : Span) (source : List Char) : Cuts :=
  let (before, after) := Text.cutBefore span.offset source
  let markStart := Text.bytes before
  let lineStop := markStart + Text.bytes (firstLine after)
  ⟨markStart - Text.bytes (lastLine before), markStart, min lineStop (markStart + span.length),
    lineStop⟩

theorem isBoundary_lineStart (before after : List Char) :
    Text.IsBoundary (Text.bytes before - Text.bytes (lastLine before)) (before ++ after) := by
  obtain ⟨lines, split, _⟩ := exists_append_lastLine before
  have place : Text.bytes before - Text.bytes (lastLine before) = Text.bytes lines := by
    have parts := congrArg Text.bytes split
    rw [Text.bytes_append] at parts
    omega
  exact ⟨lines, lastLine before ++ after, by rw [← List.append_assoc, ← split], place⟩

theorem exists_append_firstLine (cs : List Char) : ∃ rest, cs = firstLine cs ++ rest :=
  ⟨cs.dropWhile (· != '\n'), List.takeWhile_append_dropWhile.symm⟩

section
variable {span : Span} {source before after : List Char}

theorem cuts_eq (cut : Text.cutBefore span.offset source = (before, after)) :
    cuts span source = ⟨Text.bytes before - Text.bytes (lastLine before), Text.bytes before,
      Text.bytes before + min (Text.bytes (firstLine after)) span.length,
      Text.bytes before + Text.bytes (firstLine after)⟩ := by
  simp only [cuts, cut, Cuts.mk.injEq, true_and, and_true]
  omega

/-- What is marked is cut off the rest of the line. -/
theorem isSome_sketch?_iff (cut : Text.cutBefore span.offset source = (before, after)) :
    (sketch? span source).isSome = true ↔
      Text.IsBoundary (Text.bytes before + min (Text.bytes (firstLine after)) span.length)
        (before ++ after) := by
  obtain ⟨rest, line⟩ := exists_append_firstLine after
  have inside : Text.IsBoundary _ (firstLine after ++ rest) ↔ _ :=
    Text.isBoundary_of_le_iff (Nat.min_le_left (Text.bytes (firstLine after)) span.length)
  rw [← line] at inside
  rw [sketch?, cut, Option.isSome_map, Text.isBoundary_append_iff, inside]
  exact Text.isSome_cut?_iff

end

/-- Everything but the end of the mark is at a boundary and in its order, and the mark begins as
near to the offset as it can. There is a drawing exactly when the end of the mark is at a boundary
too. -/
theorem isSome_render?_iff (r : Report) (source : String) :
    let text := source.toList
    let c := cuts r.span text
    (Text.IsBoundary c.lineStart text ∧ Text.IsBoundary c.markStart text ∧
        Text.IsBoundary c.lineStop text) ∧
      (c.lineStart ≤ c.markStart ∧ c.markStart ≤ c.markStop ∧ c.markStop ≤ c.lineStop) ∧
      (c.markStart ≤ r.span.offset ∧
        ∀ n ≤ r.span.offset, Text.IsBoundary n text → n ≤ c.markStart) ∧
      ((r.render? source).isSome = true ↔ Text.IsBoundary c.markStop text) := by
  intro text c
  obtain ⟨before, after, cut⟩ :
      ∃ before after, Text.cutBefore r.span.offset text = (before, after) := ⟨_, _, rfl⟩
  have places : c = _ := cuts_eq cut
  have whole : text = before ++ after := by
    rw [← Text.cutBefore_append r.span.offset text, cut]
  have near := Text.bytes_cutBefore_le r.span.offset text
  have nearest (n : Nat) (le : n ≤ r.span.offset) (h : Text.IsBoundary n text) :=
    h.le_bytes_cutBefore le
  simp only [cut] at near nearest
  rw [places, whole]
  rw [whole] at nearest
  refine ⟨⟨isBoundary_lineStart before after, Text.isBoundary_bytes before after, ?_⟩, ?_,
    ⟨near, nearest⟩, ?_⟩
  · obtain ⟨rest, line⟩ := exists_append_firstLine after
    exact Text.isBoundary_append_iff.mpr ⟨firstLine after, rest, line, rfl⟩
  · dsimp only
    omega
  · rw [render?, Option.isSome_map]
    exact isSome_sketch?_iff cut

/-- A span of one byte on a character of two bytes ends inside the character, and it is not
drawn. -/
theorem render?_inside_character :
    let r : Report := ⟨.parse, "boom", ⟨0, 1⟩⟩
    cuts r.span "é".toList = ⟨0, 0, 1, 2⟩ ∧ ¬ Text.IsBoundary 1 "é".toList ∧
      ¬ (r.render? "é").isSome = true := by
  have inside : ¬ Text.IsBoundary 1 "é".toList := by
    rw [← Text.isSome_cut?_iff]
    decide
  refine ⟨rfl, inside, ?_⟩
  unfold render?
  rw [Option.isSome_map]
  decide

end Report
end JsonQuery
