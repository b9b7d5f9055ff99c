import JsonQuery.Schema.Basic
import Mathlib.Data.List.Perm.Subperm

/-! What it means for a value to have the shape that a schema describes. Objects are compared key by
key, so neither the order of keys matters nor how a schema came about. -/
namespace JsonQuery

namespace Fields

variable {α : Type} {key : String} {value : α} {fields : Fields α}

theorem get?_cons (k : String) (v : α) (fields : Fields α) :
    get? key ((k, v) :: fields) = if key = k then some v else get? key fields := by
  unfold get?
  by_cases same : key = k
  · rw [if_pos same, same, List.lookup_cons_self]
  · rw [if_neg same, List.lookup_cons, beq_eq_false_iff_ne.mpr same]

theorem mem_of_get? (h : get? key fields = some value) : (key, value) ∈ fields := by
  obtain ⟨before, after, rfl, _⟩ := List.lookup_eq_some_iff.mp h
  simp

theorem isSome_get?_iff : (get? key fields).isSome ↔ key ∈ keys fields := by
  simp [get?, keys]

/-- Without repetition of keys every entry can be found. -/
theorem get?_of_mem (distinct : (keys fields).Nodup) (member : (key, value) ∈ fields) :
    get? key fields = some value := by
  obtain ⟨before, after, rfl⟩ := List.append_of_mem member
  have first : ∀ field ∈ before, key ≠ field.1 := by
    rintro ⟨k, v⟩ earlier rfl
    simp only [keys, List.map_append, List.map_cons, List.nodup_append] at distinct
    exact distinct.2.2 key (List.mem_map_of_mem earlier) key (.head _) rfl
  exact List.lookup_eq_some_iff.mpr ⟨before, after, rfl, by simpa [beq_eq_false_iff_ne] using first⟩

/-- A list of keys without repetition that is as long as another and inside it has all its keys. -/
theorem keys_perm {fs gs : Fields α} (distinct : (keys fs).Nodup) (same : fs.length = gs.length)
    (found : ∀ key value, (key, value) ∈ fs → ∃ other, get? key gs = some other) :
    (keys fs).Perm (keys gs) := by
  have inside : keys fs ⊆ keys gs := by
    intro k member
    obtain ⟨⟨_, value⟩, entry, rfl⟩ := List.mem_map.mp member
    obtain ⟨other, held⟩ := found _ value entry
    exact isSome_get?_iff.mp (by simp [held])
  apply (distinct.subperm inside).perm_of_length_le
  simp [keys, same]

end Fields

/-- A schema stands somewhere inside another, or is the whole of it. -/
inductive Schema.Part (p : Schema) : Schema → Prop where
  | whole : Part p p
  | item {s : Schema} : Part p s → Part p (.array s)
  | field {key : String} {s : Schema} {fields : Fields Schema} :
    (key, s) ∈ fields → Part p s → Part p (.object fields)

namespace Schema

variable {p q s : Schema}

theorem Part.trans (first : Part p q) (second : Part q s) : Part p s := by
  induction second with
  | whole => exact first
  | item _ ih => exact .item ih
  | field member _ ih => exact .field member ih

/-- Everything about the shape is known, down to the last item. -/
def Known (s : Schema) : Prop := ¬Part .unknown s

/-- No object of the schema has two entries for a key. -/
def Distinct (s : Schema) : Prop := ∀ fields, Part (.object fields) s → (Fields.keys fields).Nodup

theorem Known.ne_unknown (known : Known s) : s ≠ .unknown := by
  rintro rfl
  exact known .whole

theorem Known.part (known : Known s) (part : Part p s) : Known p :=
  fun unknown => known (unknown.trans part)

theorem Distinct.part (distinct : Distinct s) (part : Part p s) : Distinct p :=
  fun fields inner => distinct fields (inner.trans part)

end Schema

/-- A value has the shape of a schema: the kinds match, every item has the shape of the item schema,
and an object has the keys of the schema and no others, with values of the right shape. A schema
that says nothing is no shape. -/
inductive Value.Conforms : Value → Schema → Prop where
  | boolean (b : Bool) : Conforms (.boolean b) .boolean
  | number (n : Float) : Conforms (.number n) .number
  | string (s : String) : Conforms (.string s) .string
  | array {items : List Value} {item : Schema} :
    (∀ v ∈ items, Conforms v item) → Conforms (.array items) (.array item)
  | object {fields : Fields Value} {shape : Fields Schema} :
    (∀ key, key ∈ Fields.keys fields ↔ key ∈ Fields.keys shape) →
    (∀ key v s, Fields.get? key fields = some v → Fields.get? key shape = some s → Conforms v s) →
    Conforms (.object fields) (.object shape)

namespace Schema

/-- Every field of the first list has an equal one with the same key in the second. -/
theorem equalFields_iff {fs gs : Fields Schema} : equalFields fs gs = true ↔
    ∀ key s, (key, s) ∈ fs → ∃ t, Fields.get? key gs = some t ∧ equal s t = true := by
  induction fs with
  | nil => simp [equalFields]
  | cons field fs ih =>
    obtain ⟨k, s⟩ := field
    simp only [equalFields, Bool.and_eq_true, ih, List.mem_cons, Prod.mk.injEq]
    constructor
    · rintro ⟨first, rest⟩ key t (⟨rfl, rfl⟩ | later)
      · cases found : Fields.get? key gs with
        | none => simp [found] at first
        | some u => exact ⟨u, rfl, by simpa [found] using first⟩
      · exact rest key t later
    · intro all
      refine ⟨?_, fun key t later => all key t (.inr later)⟩
      obtain ⟨u, found, same⟩ := all k s (.inl ⟨rfl, rfl⟩)
      simpa [found] using same

/-- Equal fields have the same keys. -/
theorem mem_keys_iff_of_equalFields {fs gs : Fields Schema} (distinct : (Fields.keys fs).Nodup)
    (same : fs.length = gs.length) (equal : equalFields fs gs = true) (key : String) :
    key ∈ Fields.keys fs ↔ key ∈ Fields.keys gs := by
  have perm : (Fields.keys fs).Perm (Fields.keys gs) :=
    Fields.keys_perm distinct same fun key s entry =>
      let ⟨t, held, _⟩ := equalFields_iff.mp equal key s entry
      ⟨t, held⟩
  exact perm.mem_iff

/-- Equal schemas describe the same values, in whatever order they list their keys. -/
theorem conforms_of_equal {v : Value} {r : Schema} (fits : v.Conforms r) {l : Schema}
    (distinct : Distinct l) (same : equal l r = true) : v.Conforms l := by
  induction fits generalizing l with
  | boolean b => cases l <;> simp_all [equal, Value.Conforms.boolean]
  | number n => cases l <;> simp_all [equal, Value.Conforms.number]
  | string s => cases l <;> simp_all [equal, Value.Conforms.string]
  | array _ ih =>
    cases l with
    | array item =>
      rw [equal] at same
      exact .array fun v member => ih v member (distinct.part (.item .whole)) same
    | _ => simp [equal] at same
  | @object fields shape keys _ ih =>
    cases l with
    | object fs =>
      rw [equal, Bool.and_eq_true, beq_iff_eq] at same
      obtain ⟨length, entries⟩ := same
      have nodup := distinct fs .whole
      refine .object (fun key => ?_) fun key v s held described => ?_
      · rw [keys, mem_keys_iff_of_equalFields nodup length entries]
      · have member := Fields.mem_of_get? described
        obtain ⟨t, found, same⟩ := equalFields_iff.mp entries key s member
        exact ih key v t held found (distinct.part (.field member .whole)) same
    | _ => simp [equal] at same

end Schema
end JsonQuery
