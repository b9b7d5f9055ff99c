import JsonQuery.Proofs.Schema.Conformance
import JsonQuery.Proofs.Value.Part

/-! Schemas that say less. A schema is blurred by forgetting some of its parts, and an example is
made sparser by taking out what it holds, which blurs the schema taken from it. -/
namespace JsonQuery

namespace Schema

/-- A schema with any number of its parts replaced by unknown ones. The order of keys does not
matter, as it does not for equality. -/
inductive Blurs : Schema → Schema → Prop where
  | unknown (s : Schema) : Blurs .unknown s
  | boolean : Blurs .boolean .boolean
  | number : Blurs .number .number
  | string : Blurs .string .string
  | array {item' item : Schema} : Blurs item' item → Blurs (.array item') (.array item)
  | object {fields' fields : Fields Schema} :
    (∀ key, key ∈ Fields.keys fields' ↔ key ∈ Fields.keys fields) →
    (∀ key s' s, Fields.get? key fields' = some s' → Fields.get? key fields = some s → Blurs s' s) →
    Blurs (.object fields') (.object fields)

/-- Two item schemas are equal, or nothing is known of one of them. -/
def Compatible (l r : Schema) : Prop := l.equal r = true ∨ l = .unknown ∨ r = .unknown

variable {l r s s' : Schema}

theorem Blurs.kind_eq (blurred : Blurs s' s) (known : s' ≠ .unknown) : s'.kind = s.kind := by
  cases blurred with
  | unknown s => exact absurd rfl known
  | boolean | number | string | array _ | object _ _ => rfl

theorem kind_eq_of_equal (same : l.equal r = true) : l.kind = r.kind := by
  cases l <;> cases r <;> first | rfl | cases same

/-- What blurs a schema blurs every schema that is equal to it. -/
theorem Blurs.of_equal (blurred : Blurs s' r) (distinct : Distinct l) (same : l.equal r = true) :
    Blurs s' l := by
  induction blurred generalizing l with
  | unknown s => exact .unknown l
  | boolean => cases l <;> first | exact .boolean | cases same
  | number => cases l <;> first | exact .number | cases same
  | string => cases l <;> first | exact .string | cases same
  | array _ ih =>
    cases l with
    | array item =>
      rw [equal] at same
      exact .array (ih (distinct.part (.item .whole)) same)
    | _ => cases same
  | @object fields' fields keys _ ih =>
    cases l with
    | object fs =>
      rw [equal, Bool.and_eq_true, beq_iff_eq] at same
      obtain ⟨length, entries⟩ := same
      have sameKeys := mem_keys_iff_of_equalFields (distinct fs .whole) length entries
      refine .object (fun key => (keys key).trans (sameKeys key).symm) fun key s' s held held' => ?_
      have member := Fields.mem_of_get? held'
      obtain ⟨t, found, same⟩ := equalFields_iff.mp entries key s member
      exact ih key s' t held found (distinct.part (.field member .whole)) same
    | _ => cases same

theorem keys_ofFields (fields : Fields Value) :
    Fields.keys (ofFields fields) = Fields.keys fields := by
  induction fields with
  | nil => rfl
  | cons field fields ih => exact congrArg (field.1 :: ·) ih

theorem get?_ofFields (key : String) (fields : Fields Value) :
    Fields.get? key (ofFields fields) = (Fields.get? key fields).map ofValue := by
  induction fields with
  | nil => rfl
  | cons field fields ih =>
    obtain ⟨k, v⟩ := field
    by_cases here : key = k
    · simp [ofFields, Fields.get?, here]
    · have other : (key == k) = false := by simpa using here
      simpa [ofFields, Fields.get?, List.lookup_cons, other] using ih

mutual

/-- The objects in the schema of an example are the schemas of objects in the example. -/
theorem exists_part_of_part_ofValue (v : Value) {shape : Fields Schema}
    (part : Part (.object shape) (ofValue v)) :
    ∃ fields, Value.Part (.object fields) v ∧ ofFields fields = shape := by
  cases v with
  | null | boolean | number | string => cases part
  | array items =>
    cases part with
    | item inner =>
      obtain ⟨v, member, fields, inner, same⟩ := exists_part_of_part_ofItems items inner
      exact ⟨fields, .item member inner, same⟩
  | object fields =>
    cases part with
    | whole => exact ⟨fields, .whole, rfl⟩
    | field member inner =>
      obtain ⟨field, member, fields, inner, same⟩ :=
        exists_part_of_part_ofFields fields member inner
      exact ⟨fields, .field member inner, same⟩

theorem exists_part_of_part_ofItems (items : List Value) {shape : Fields Schema}
    (part : Part (.object shape) (ofItems items)) :
    ∃ v ∈ items, ∃ fields, Value.Part (.object fields) v ∧ ofFields fields = shape := by
  cases items with
  | nil => cases part
  | cons v vs => exact ⟨v, List.mem_cons_self, exists_part_of_part_ofValue v part⟩

theorem exists_part_of_part_ofFields (fields : List (String × Value)) {shape : Fields Schema}
    {key : String} {s : Schema} (member : (key, s) ∈ ofFields fields)
    (part : Part (.object shape) s) :
    ∃ field ∈ fields, ∃ inner, Value.Part (.object inner) field.2 ∧ ofFields inner = shape := by
  cases fields with
  | nil => cases member
  | cons field fields =>
    obtain ⟨k, v⟩ := field
    rcases List.mem_cons.mp member with here | later
    · cases here
      exact ⟨(key, v), List.mem_cons_self, exists_part_of_part_ofValue v part⟩
    · obtain ⟨field, member, found⟩ := exists_part_of_part_ofFields fields later part
      exact ⟨field, List.mem_cons_of_mem _ member, found⟩

end

theorem distinct_ofValue {v : Value} (distinct : v.Distinct) : Distinct (ofValue v) := by
  intro shape part
  obtain ⟨fields, inner, rfl⟩ := exists_part_of_part_ofValue v part
  rw [keys_ofFields]
  exact distinct fields inner

end Schema

/-- An example of the same shape as a fuller one, with nulls and empty arrays in the place of some
things. Of the items of an array only the first one counts, as it does for the schema. -/
inductive Value.Sparser : Value → Value → Prop where
  | null (v : Value) : Sparser .null v
  | boolean (b' b : Bool) : Sparser (.boolean b') (.boolean b)
  | number (n' n : Float) : Sparser (.number n') (.number n)
  | string (s' s : String) : Sparser (.string s') (.string s)
  | empty (items : List Value) : Sparser (.array []) (.array items)
  | array {v' v : Value} (items' items : List Value) :
    Sparser v' v → Sparser (.array (v' :: items')) (.array (v :: items))
  | object {fields' fields : Fields Value} :
    (∀ key, key ∈ Fields.keys fields' ↔ key ∈ Fields.keys fields) →
    (∀ key v' v, Fields.get? key fields' = some v' → Fields.get? key fields = some v →
      Sparser v' v) → Sparser (.object fields') (.object fields)

namespace Value.Sparser

variable {v' v : Value} {fields' fields : Fields Value}

theorem nil : Sparser (.object []) (.object []) := .object (fun _ => Iff.rfl) nofun

/-- Objects that list their keys in one order are compared field by field. -/
theorem cons {key : String} (first : Sparser v' v)
    (rest : Sparser (.object fields') (.object fields)) :
    Sparser (.object ((key, v') :: fields')) (.object ((key, v) :: fields)) := by
  cases rest with
  | object keys values =>
    constructor
    · intro k
      have others := keys k
      simp only [Fields.keys, List.map_cons, List.mem_cons] at others ⊢
      rw [others]
    · intro k u' u held' held
      simp only [Fields.get?, List.lookup_cons] at held' held
      by_cases here : (k == key) = true
      · rw [here] at held' held
        cases held'
        cases held
        exact first
      · simp only [here] at held' held
        exact values k u' u held' held

/-- A sparser example says no more than a fuller one. -/
theorem blurs (sparser : v'.Sparser v) :
    (Schema.ofValue v').Blurs (.ofValue v) := by
  induction sparser with
  | null v => exact .unknown _
  | boolean b' b => exact .boolean
  | number n' n => exact .number
  | string s' s => exact .string
  | empty items => exact .array (.unknown _)
  | array items' items _ ih => exact .array ih
  | object keys _ ih =>
    refine .object (fun key => ?_) fun key s' s held' held => ?_
    · rw [Schema.keys_ofFields, Schema.keys_ofFields]
      exact keys key
    · rw [Schema.get?_ofFields, Option.map_eq_some_iff] at held' held
      obtain ⟨v', found', rfl⟩ := held'
      obtain ⟨v, found, rfl⟩ := held
      exact ih key v' v found' found

end Value.Sparser
end JsonQuery
