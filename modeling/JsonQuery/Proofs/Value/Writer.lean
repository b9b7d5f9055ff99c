import JsonQuery.Proofs.Json.Reading
import JsonQuery.Proofs.Value.Part
import JsonQuery.Text.Layout

/-! What makes a way to write values one of writing JSON text. A text written so is read as the
value, but for what the writer keeps of its numbers. -/
namespace JsonQuery.Value

open Json (Reads ReadsField)

/-- Values are written as JSON text in a layout: containers are made of the texts of what is inside,
names and strings are quoted, and the text of a number is read as what is told of it. -/
structure IsWriter (l : Layout) (escape : Char → List Char) (told : Float → Value)
    (write : Nat → Value → List Char) : Prop where
  escapes : Json.Escapes escape
  null : ∀ depth, write depth .null = ['n', 'u', 'l', 'l']
  boolean : ∀ depth b, write depth (.boolean b) =
    if b then ['t', 'r', 'u', 'e'] else ['f', 'a', 'l', 's', 'e']
  number : ∀ depth n, ∃ j, Reads 0 (write depth (.number n)) j ∧ j.toValue = told n
  string : ∀ depth s, write depth (.string s) = Text.quoted escape s.toList
  array : ∀ depth items, write depth (.array items) =
    l.container depth '[' ']' (items.map (write (depth + 1)))
  object : ∀ depth fields, write depth (.object fields) =
    l.container depth '{' '}' (fields.map fun field =>
      Text.quoted escape field.1.toList ++ l.colon ++ write (depth + 1) field.2)

namespace IsWriter

variable {l : Layout} {escape : Char → List Char} {told : Float → Value}
  {write : Nat → Value → List Char}

mutual

/-- What is written for a value is read as a document of the value. -/
theorem exists_reads (h : IsWriter l escape told write) (v : Value) (distinct : Distinct v)
    (depth : Nat) :
    ∃ j, Reads v.nesting (write depth v) j ∧ j.toValue = replaceNumbers told v := by
  cases v with
  | null => exact ⟨.null, h.null depth ▸ Json.reads_null, rfl⟩
  | boolean b =>
    refine ⟨.boolean b, ?_, rfl⟩
    rw [h.boolean]
    cases b with
    | false => exact Json.reads_false
    | true => exact Json.reads_true
  | number n => exact h.number depth n
  | string s => exact ⟨.string s, h.string depth s ▸ Json.reads_string h.escapes s, rfl⟩
  | array items =>
    obtain ⟨js, reads, same⟩ := exists_readsItems h items (distinct_array.mp distinct) (depth + 1)
    exact ⟨.array js, h.array depth items ▸ Json.reads_array reads, congrArg Value.array same⟩
  | object fields =>
    obtain ⟨unique, distinct⟩ := distinct_object.mp distinct
    obtain ⟨gs, reads, keys, same⟩ := exists_readsFields h fields distinct (depth + 1)
    rw [h.object]
    exact ⟨.object gs, Json.reads_object h.escapes reads (keys ▸ unique),
      congrArg Value.object same⟩

theorem exists_readsItems (h : IsWriter l escape told write) (vs : List Value)
    (distinct : ∀ v ∈ vs, Distinct v) (depth : Nat) :
    ∃ js, List.Forall₂ (Reads (nestingItems vs)) (vs.map (write depth)) js ∧
      Json.toItems js = replaceNumbersItems told vs := by
  cases vs with
  | nil => exact ⟨[], .nil, rfl⟩
  | cons v vs =>
    obtain ⟨j, reads, same⟩ := exists_reads h v (distinct v List.mem_cons_self) depth
    obtain ⟨js, others, same'⟩ :=
      exists_readsItems h vs (fun v member => distinct v (List.mem_cons_of_mem _ member)) depth
    refine ⟨j :: js, .cons (reads.mono (Nat.le_max_left _ _)) ?_, congrArg₂ List.cons same same'⟩
    exact others.imp fun _ _ reads => reads.mono (Nat.le_max_right _ _)

theorem exists_readsFields (h : IsWriter l escape told write) (fields : List (String × Value))
    (distinct : ∀ field ∈ fields, Distinct field.2) (depth : Nat) :
    ∃ gs, List.Forall₂ (ReadsField l escape (nestingFields fields))
        (fields.map fun field =>
          Text.quoted escape field.1.toList ++ l.colon ++ write depth field.2) gs ∧
      Fields.keys gs = Fields.keys fields ∧
      Json.toFields gs = replaceNumbersFields told fields := by
  cases fields with
  | nil => exact ⟨[], .nil, rfl, rfl⟩
  | cons field fields =>
    obtain ⟨k, v⟩ := field
    obtain ⟨j, reads, same⟩ := exists_reads h v (distinct _ List.mem_cons_self) depth
    obtain ⟨gs, others, keys, same'⟩ :=
      exists_readsFields h fields (fun f member => distinct f (List.mem_cons_of_mem _ member)) depth
    have first : ReadsField l escape (nestingFields ((k, v) :: fields))
        (Text.quoted escape k.toList ++ l.colon ++ write depth v) (k, j) :=
      ⟨_, rfl, reads.mono (Nat.le_max_left _ _)⟩
    refine ⟨(k, j) :: gs, .cons first ?_, congrArg (k :: ·) keys,
      congrArg₂ (fun v fields => (k, v) :: fields) same same'⟩
    exact others.imp fun _ _ reads => reads.mono (Nat.le_max_right _ _)

end

/-- What is written for a value is read as the value, but for its numbers. -/
theorem ofJsonText?_eq (h : IsWriter l escape told write) {v : Value} (distinct : Distinct v)
    (shallow : v.nesting ≤ Json.nestingLimit) :
    ofJsonText? (String.ofList (write 0 v)) = some (replaceNumbers told v) := by
  obtain ⟨j, reads, same⟩ := h.exists_reads v distinct 0
  rw [ofJsonText?, reads.read? shallow, Option.map_some, same]

end IsWriter
end JsonQuery.Value
