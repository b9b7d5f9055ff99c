import JsonQuery.Proofs.Value.Writer
import JsonQuery.Value.Text

/-! The text of a value is read as the value, in either layout. Only numbers that are not finite are
lost, since they have no text. -/
namespace JsonQuery

open Json (Reads)

namespace Number

theorem isNumeral_plain {x : Float} (finite : isFinite x = true) :
    ∀ c ∈ plain x, Json.isNumeral c = true := by
  obtain ⟨whole, fraction, text, isWhole, digits, _⟩ := exists_plain finite
  intro c member
  rw [text, List.mem_append] at member
  rcases member with sign | places
  · exact Json.isNumeral_sign _ c sign
  · exact Json.isNumeral_pointed isWhole digits c places

end Number

namespace Value

theorem exists_reads_number (n : Float) :
    ∃ j, Reads 0 (numberText n) j ∧ j.toValue = printableNumber n := by
  unfold numberText printableNumber
  by_cases finite : Number.isFinite n = true
  · rw [if_pos finite, if_pos finite]
    obtain ⟨j, read, same⟩ := Json.ofNumberText?_plain finite
    exact ⟨j, Json.reads_number (Number.isNumeral_plain finite) read, same⟩
  · rw [if_neg finite, if_neg finite]
    exact ⟨.null, Json.reads_null, rfl⟩

theorem writeItems_eq_map (l : Layout) (depth : Nat) (vs : List Value) :
    writeItems l depth vs = vs.map (write l depth) := by
  induction vs with
  | nil => rfl
  | cons v vs ih => exact congrArg (write l depth v :: ·) ih

theorem writeFields_eq_map (l : Layout) (depth : Nat) (fields : List (String × Value)) :
    writeFields l depth fields =
      fields.map fun field => quote field.1 ++ l.colon ++ write l depth field.2 := by
  induction fields with
  | nil => rfl
  | cons field fields ih =>
    exact congrArg ((quote field.1 ++ l.colon ++ write l depth field.2) :: ·) ih

theorem isWriter_write (l : Layout) : IsWriter l escape printableNumber (write l) where
  escapes := escapes
  null _ := rfl
  boolean _ b := by cases b <;> rfl
  number _ n := exists_reads_number n
  string _ _ := rfl
  array depth items := by rw [write, writeItems_eq_map]
  object depth fields := by
    rw [write, writeFields_eq_map]
    rfl

/-- In either layout the text of a value is read as the value. -/
theorem ofJsonText?_write {v : Value} (distinct : Distinct v)
    (shallow : v.nesting ≤ Json.nestingLimit) (l : Layout) :
    ofJsonText? (String.ofList (v.write l 0)) = some v.printable :=
  (isWriter_write l).ofJsonText?_eq distinct shallow

/-- Values that nest at most 127 deep are read back from their text, compact or indented. Null is
read for each number that is not finite, and nothing else changes. -/
theorem text_roundTrip (v : Value) (distinct : Distinct v) (shallow : v.nesting ≤ 127) :
    (Finite v → ofJsonText? v.text = some v ∧ ofJsonText? v.indented = some v) ∧
      ofJsonText? v.text = some v.printable ∧ ofJsonText? v.indented = some v.printable := by
  have compact := ofJsonText?_write distinct shallow .compact
  have indented := ofJsonText?_write distinct shallow .indented
  refine ⟨fun finite => ?_, compact, indented⟩
  rw [printable_of_finite finite] at compact indented
  exact ⟨compact, indented⟩

/-- Negative zero keeps its sign, and escaped text comes back. What is not a number becomes null. -/
theorem text_roundTrip_mixed :
    let zero := Value.number (Number.ofCode true 0)
    let kept := Value.object
      [("\"é\n", .array [zero, .array []]), ("", .string "\\\t\x7f"), ("?", .boolean true)]
    let lost := Value.array [kept, .null, .number Number.nan]
    (ofJsonText? kept.text = some kept ∧ ofJsonText? kept.indented = some kept) ∧
      ofJsonText? lost.text = some (.array [kept, .null, .null]) ∧
      ofJsonText? lost.indented = some (.array [kept, .null, .null]) := by
  intro zero kept lost
  have distinct : Distinct kept := by simp [kept, zero, Fields.keys]
  have finite : Finite kept := by
    have finite : Number.isFinite (Number.ofCode true 0) = true := by decide
    simp [kept, zero, finite]
  have distinct' : Distinct lost := by simp [lost, distinct]
  have printed : lost.printable = .array [kept, .null, .null] := by
    have none : printableNumber Number.nan = .null := if_neg (by decide)
    have same : replaceNumbers printableNumber kept = kept := printable_of_finite finite
    simp [lost, printable, replaceNumbers, replaceNumbersItems, none, same]
  obtain ⟨same, _⟩ := text_roundTrip kept distinct (by decide)
  obtain ⟨_, compact, indented⟩ := text_roundTrip lost distinct' (by decide)
  rw [printed] at compact indented
  exact ⟨same finite, compact, indented⟩

end Value
end JsonQuery
