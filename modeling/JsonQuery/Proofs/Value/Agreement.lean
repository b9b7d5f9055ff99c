import JsonQuery.Proofs.Json.Document
import JsonQuery.Proofs.Schema.Conformance
import JsonQuery.Proofs.Value.RoundTrip
import JsonQuery.Value.Basic

/-! The document of a value and the text of a value tell the same of it. A document has no negative
zero, and neither of them has a number that is not finite. Whether the text of the document or the
text of the value is read, the result is the same but for the sign of zeros, which are equal. -/
namespace JsonQuery

open Json (Reads)

namespace Value

variable {f g : Float → Value}

/-- What a document tells of a number: zeros without a sign, and null where there is no number. -/
def interchangedNumber (n : Float) : Value :=
  if Number.isFinite n then .number (if Number.code n = 0 then Number.ofCode false 0 else n)
  else .null

def interchanged (v : Value) : Value := replaceNumbers interchangedNumber v

/-- A number becomes an integer, which stands for it, or it is kept, or there is none. Only zeros
have the code zero, and they are whole. -/
theorem ofNumber_cases (n : Float) :
    (∃ i, Json.ofNumber n = .integer i ∧ interchangedNumber n = .number (Number.ofInt i) ∧
        Number.isFinite (Number.ofInt i) = true) ∨
      (Json.ofNumber n = .real n ∧ interchangedNumber n = .number n ∧
        Number.isFinite n = true) ∨
      (Json.ofNumber n = .null ∧ interchangedNumber n = .null) := by
  unfold Json.ofNumber interchangedNumber
  by_cases integral : Number.isWhole n = true ∧ Number.wholeMagnitude n < Json.integerLimit
  · obtain ⟨whole, small⟩ := integral
    have below : Number.wholeMagnitude n < 2 ^ 63 := Nat.lt_trans small (by decide)
    have same := Number.ofInt_toInt64 whole below
    have finite := Number.isFinite_of_isWhole whole
    left
    refine ⟨Number.toInt64 n, by simp [whole, small], by rw [if_pos finite, same], ?_⟩
    rw [same]
    split
    · decide
    · exact finite
  · right
    rw [if_neg (by simpa using integral)]
    by_cases finite : Number.isFinite n = true
    · have some : Number.code n ≠ 0 := by
        intro zero
        obtain ⟨whole, none⟩ := Number.isWhole_of_zero zero
        exact integral ⟨whole, none ▸ (by decide : 0 < Json.integerLimit)⟩
      rw [if_pos finite, if_pos finite, if_neg some]
      exact .inl ⟨rfl, rfl, finite⟩
    · rw [if_neg finite, if_neg finite]
      exact .inr ⟨rfl, rfl⟩

theorem toValue_ofNumber (n : Float) : (Json.ofNumber n).toValue = interchangedNumber n := by
  rcases ofNumber_cases n with ⟨i, document, same, _⟩ | ⟨document, same, _⟩ | ⟨document, same⟩ <;>
    rw [document, same] <;> rfl

mutual

/-- The value of a value's document. -/
theorem toValue_ofValue (v : Value) : (Json.ofValue v).toValue = v.interchanged := by
  cases v with
  | number n => exact toValue_ofNumber n
  | array items => exact congrArg Value.array (toItems_ofItems items)
  | object fields => exact congrArg Value.object (toFields_ofFields fields)
  | null | boolean | string => rfl

theorem toItems_ofItems (vs : List Value) :
    Json.toItems (Json.ofItems vs) = replaceNumbersItems interchangedNumber vs := by
  cases vs with
  | nil => rfl
  | cons v vs => exact congrArg₂ List.cons (toValue_ofValue v) (toItems_ofItems vs)

theorem toFields_ofFields (fields : List (String × Value)) :
    Json.toFields (Json.ofFields fields) = replaceNumbersFields interchangedNumber fields := by
  cases fields with
  | nil => rfl
  | cons field fields =>
    obtain ⟨k, v⟩ := field
    exact congrArg₂ (fun v fields => (k, v) :: fields) (toValue_ofValue v)
      (toFields_ofFields fields)

end

theorem exists_reads_ofNumber (n : Float) (l : Layout) (depth : Nat) :
    ∃ j, Reads 0 ((Json.ofNumber n).write l depth) j ∧ j.toValue = interchangedNumber n := by
  rcases ofNumber_cases n with ⟨i, document, same, finite⟩ | ⟨document, same, finite⟩ |
      ⟨document, same⟩ <;> rw [document, same]
  · exact Json.exists_reads_integerText finite
  · exact Json.exists_reads_interchange finite
  · exact ⟨.null, Json.reads_null, rfl⟩

theorem writeItems_ofItems (l : Layout) (depth : Nat) (vs : List Value) :
    Json.writeItems l depth (Json.ofItems vs) = vs.map fun v => (Json.ofValue v).write l depth := by
  induction vs with
  | nil => rfl
  | cons v vs ih => exact congrArg ((Json.ofValue v).write l depth :: ·) ih

theorem writeFields_ofFields (l : Layout) (depth : Nat) (fields : List (String × Value)) :
    Json.writeFields l depth (Json.ofFields fields) = fields.map fun field =>
      Json.quote field.1 ++ l.colon ++ (Json.ofValue field.2).write l depth := by
  induction fields with
  | nil => rfl
  | cons field fields ih =>
    exact congrArg ((Json.quote field.1 ++ l.colon ++ (Json.ofValue field.2).write l depth) :: ·) ih

theorem isWriter_document (l : Layout) : IsWriter l Json.escape interchangedNumber
    fun depth v => (Json.ofValue v).write l depth where
  escapes := Json.escapes
  null _ := rfl
  boolean _ b := by cases b <;> rfl
  number depth n := exists_reads_ofNumber n l depth
  string _ _ := rfl
  array depth items := by rw [Json.ofValue, Json.write, writeItems_ofItems]
  object depth fields := by
    rw [Json.ofValue, Json.write, writeFields_ofFields]
    rfl

theorem get?_replaceNumbersFields (key : String) (fields : Fields Value) :
    Fields.get? key (replaceNumbersFields f fields) =
      (Fields.get? key fields).map (replaceNumbers f) := by
  induction fields with
  | nil => rfl
  | cons field fields ih =>
    obtain ⟨k, v⟩ := field
    rw [replaceNumbersFields, Fields.get?_cons, Fields.get?_cons, ih]
    split <;> rfl

theorem length_replaceNumbersFields (fields : Fields Value) :
    (replaceNumbersFields f fields).length = fields.length := by
  induction fields with
  | nil => rfl
  | cons field fields ih => exact congrArg (· + 1) ih

mutual

/-- Replacing numbers in two ways gives equal values if it does so for every number. -/
theorem equal_replaceNumbers (same : ∀ n, (f n).equal (g n) = true) (v : Value)
    (distinct : Distinct v) : (replaceNumbers f v).equal (replaceNumbers g v) = true := by
  cases v with
  | null => rfl
  | boolean b => exact beq_self_eq_true b
  | number n => exact same n
  | string s => exact beq_self_eq_true s
  | array items => exact equalItems_replaceNumbers same items (distinct_array.mp distinct)
  | object fields =>
    obtain ⟨unique, distinct⟩ := distinct_object.mp distinct
    simp only [replaceNumbers, equal, Bool.and_eq_true, beq_iff_eq, length_replaceNumbersFields,
      true_and]
    refine equalFields_replaceNumbers same fields distinct fun field member => ?_
    rw [get?_replaceNumbersFields, Fields.get?_of_mem unique member, Option.map_some]

theorem equalItems_replaceNumbers (same : ∀ n, (f n).equal (g n) = true) (vs : List Value)
    (distinct : ∀ v ∈ vs, Distinct v) :
    equalItems (replaceNumbersItems f vs) (replaceNumbersItems g vs) = true := by
  cases vs with
  | nil => rfl
  | cons v vs =>
    simp only [replaceNumbersItems, equalItems, Bool.and_eq_true]
    exact ⟨equal_replaceNumbers same v (distinct v List.mem_cons_self),
      equalItems_replaceNumbers same vs fun v member => distinct v (List.mem_cons_of_mem _ member)⟩

theorem equalFields_replaceNumbers (same : ∀ n, (f n).equal (g n) = true)
    (fields : List (String × Value)) (distinct : ∀ field ∈ fields, Distinct field.2)
    {others : List (String × Value)}
    (found : ∀ field ∈ fields, Fields.get? field.1 others = some (replaceNumbers g field.2)) :
    equalFields (replaceNumbersFields f fields) others = true := by
  cases fields with
  | nil => rfl
  | cons field fields =>
    obtain ⟨k, v⟩ := field
    simp only [replaceNumbersFields, equalFields, Bool.and_eq_true, found (k, v) List.mem_cons_self]
    exact ⟨equal_replaceNumbers same v (distinct _ List.mem_cons_self),
      equalFields_replaceNumbers same fields
        (fun field member => distinct field (List.mem_cons_of_mem _ member))
        fun field member => found field (List.mem_cons_of_mem _ member)⟩

end

/-- A number differs from what a document tells of it in the sign of a zero at most, and both zeros
are equal. -/
theorem beq_unsignedZero {n : Float} (finite : Number.isFinite n = true) :
    let m := if Number.code n = 0 then Number.ofCode false 0 else n
    (m == n) = true ∧ (n == m) = true := by
  dsimp only
  split
  · rename_i zero
    rw [← Number.ofCode_code n, zero]
    cases Number.isNegative n <;> decide
  · exact ⟨Number.beq_self_of_isFinite finite, Number.beq_self_of_isFinite finite⟩

theorem equal_interchangedNumber (n : Float) :
    (interchangedNumber n).equal (printableNumber n) = true ∧
      (printableNumber n).equal (interchangedNumber n) = true := by
  unfold interchangedNumber printableNumber
  by_cases finite : Number.isFinite n = true
  · rw [if_pos finite, if_pos finite]
    exact beq_unsignedZero finite
  · rw [if_neg finite, if_neg finite]
    exact ⟨rfl, rfl⟩

/-- A value goes into its document and back, except that null stands for each number that is not
finite and zero for each negative zero. If it nests at most 127 deep, the text of the document, in
either layout, is read as the same, and what is read from the text of the value is equal to it. -/
theorem document_agrees (v : Value) :
    (Json.ofValue v).toValue = v.interchanged ∧
      (Distinct v → v.nesting ≤ 127 →
        (∀ l : Layout, ofJsonText? ((Json.ofValue v).text l) = some v.interchanged) ∧
          ofJsonText? v.text = some v.printable ∧
          v.interchanged.equal v.printable = true ∧ v.printable.equal v.interchanged = true) := by
  refine ⟨toValue_ofValue v, fun distinct shallow => ⟨fun l => ?_, ?_, ?_, ?_⟩⟩
  · exact (isWriter_document l).ofJsonText?_eq distinct shallow
  · exact ofJsonText?_write distinct shallow .compact
  · exact equal_replaceNumbers (fun n => (equal_interchangedNumber n).1) v distinct
  · exact equal_replaceNumbers (fun n => (equal_interchangedNumber n).2) v distinct

/-- Inside an object a negative zero loses its sign in the document and keeps it in the text. What
is not a number is null in both. -/
theorem document_agrees_mixed :
    let zero := Value.number (Number.ofCode true 0)
    let large := Value.number (Number.ofCode false 0x4341C37937E08000)
    let v := Value.object [("z", .array [zero, .number Number.nan]), ("a\x07", large)]
    let told := Value.object
      [("z", .array [.number (Number.ofCode false 0), .null]), ("a\x07", large)]
    let printed := Value.object [("z", .array [zero, .null]), ("a\x07", large)]
    (Json.ofValue v).toValue = told ∧
      (∀ l : Layout, ofJsonText? ((Json.ofValue v).text l) = some told) ∧
      ofJsonText? v.text = some printed ∧ told.equal printed = true := by
  intro zero large v told printed
  have distinct : Distinct v := by simp [v, zero, large, Fields.keys]
  have interchanged : v.interchanged = told := rfl
  have printable : v.printable = printed := rfl
  obtain ⟨back, texts⟩ := document_agrees v
  obtain ⟨documents, text, same, _⟩ := texts distinct (by decide)
  rw [interchanged] at back documents same
  rw [printable] at text same
  exact ⟨back, documents, text, same⟩

end Value
end JsonQuery
