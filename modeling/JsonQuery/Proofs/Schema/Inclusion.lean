import JsonQuery.Proofs.Schema.Conformance

/-! When all values of one shape have another shape as well. Every shape has a value, and the values
that differ from it in a single place tell the shapes apart, so this is so only for equal
schemas. -/
namespace JsonQuery

namespace Fields

variable {α : Type} {key : String}

theorem get?_put (value : α) (fields : Fields α) :
    get? key (put key value fields) = some value := by
  induction fields with
  | nil => rw [put, get?_cons, if_pos rfl]
  | cons field fields ih =>
    obtain ⟨k, v⟩ := field
    unfold put
    split
    · rename_i same
      rw [get?_cons, if_pos same.symm]
    · rename_i other
      rw [get?_cons, if_neg (Ne.symm other), ih]

theorem get?_put_of_ne {other : String} (ne : other ≠ key) (value : α) (fields : Fields α) :
    get? other (put key value fields) = get? other fields := by
  induction fields with
  | nil => rw [put, get?_cons, if_neg ne]
  | cons field fields ih =>
    obtain ⟨k, v⟩ := field
    unfold put
    split
    · rename_i same
      rw [get?_cons, get?_cons, if_neg (same ▸ ne), if_neg (same ▸ ne)]
    · rw [get?_cons, get?_cons, ih]

end Fields

namespace Schema

variable {l r s : Schema}

@[simp] theorem known_boolean : Known .boolean := nofun

@[simp] theorem known_number : Known .number := nofun

@[simp] theorem known_string : Known .string := nofun

@[simp] theorem known_array : Known (.array s) ↔ Known s := by
  refine ⟨fun known => known.part (.item .whole), fun known unknown => ?_⟩
  cases unknown with
  | item inner => exact known inner

@[simp] theorem known_object {fields : Fields Schema} :
    Known (.object fields) ↔ ∀ field ∈ fields, Known field.2 := by
  constructor
  · intro known field member
    exact known.part (.field member .whole)
  · intro known unknown
    cases unknown with
    | field member inner => exact known _ member inner

@[simp] theorem distinct_boolean : Distinct .boolean := nofun

@[simp] theorem distinct_number : Distinct .number := nofun

@[simp] theorem distinct_string : Distinct .string := nofun

@[simp] theorem distinct_array : Distinct (.array s) ↔ Distinct s := by
  refine ⟨fun distinct => distinct.part (.item .whole), fun distinct fields part => ?_⟩
  cases part with
  | item inner => exact distinct fields inner

@[simp] theorem distinct_object {fields : Fields Schema} : Distinct (.object fields) ↔
    (Fields.keys fields).Nodup ∧ ∀ field ∈ fields, Distinct field.2 := by
  constructor
  · intro distinct
    exact ⟨distinct fields .whole, fun field member => distinct.part (.field member .whole)⟩
  · rintro ⟨unique, distinct⟩ inner part
    cases part with
    | whole => exact unique
    | field member part => exact distinct _ member inner part

/-- What holds of a schema when it holds of its item and of its fields holds of every schema. -/
@[elab_as_elim] theorem shape_induction {motive : Schema → Prop} (unknown : motive .unknown)
    (boolean : motive .boolean) (number : motive .number) (string : motive .string)
    (array : ∀ item, motive item → motive (.array item))
    (object : ∀ fields, (∀ field ∈ fields, motive field.2) → motive (.object fields))
    (s : Schema) : motive s :=
  @Schema.rec motive (fun fields => ∀ field ∈ fields, motive field.2) (fun field => motive field.2)
    unknown boolean number string array object nofun
    (fun _ _ first rest => List.forall_mem_cons.mpr ⟨first, rest⟩) (fun _ _ value => value) s

mutual

def sample : Schema → Value
  | unknown => .null
  | boolean => .boolean false
  | number => .number 0
  | string => .string ""
  | array _ => .array []
  | object fields => .object (sampleFields fields)

def sampleFields : List (String × Schema) → List (String × Value)
  | [] => []
  | (k, s) :: fields => (k, sample s) :: sampleFields fields

end

theorem keys_sampleFields (fields : Fields Schema) :
    Fields.keys (sampleFields fields) = Fields.keys fields := by
  induction fields with
  | nil => rfl
  | cons field fields ih => exact congrArg (field.1 :: ·) ih

theorem get?_sampleFields (key : String) (fields : Fields Schema) :
    Fields.get? key (sampleFields fields) = (Fields.get? key fields).map sample := by
  induction fields with
  | nil => rfl
  | cons field fields ih =>
    obtain ⟨k, s⟩ := field
    rw [sampleFields, Fields.get?_cons, Fields.get?_cons, ih]
    split <;> rfl

theorem conforms_sample (known : Known s) : s.sample.Conforms s := by
  induction s using shape_induction with
  | unknown => exact absurd .whole known
  | boolean => exact .boolean false
  | number => exact .number 0
  | string => exact .string ""
  | array item _ => exact .array nofun
  | object fields ih =>
    refine .object (fun key => by rw [keys_sampleFields]) fun key v s held described => ?_
    rw [get?_sampleFields, described] at held
    obtain rfl : s.sample = v := Option.some.inj held
    have member := Fields.mem_of_get? described
    exact ih _ member (known_object.mp known _ member)

/-- A field can be given any other value of its shape. -/
theorem conforms_put {fields : Fields Value} {shape : Fields Schema} {key : String} {v : Value}
    (fits : (Value.object fields).Conforms (.object shape))
    (described : Fields.get? key shape = some s) (held : v.Conforms s) :
    (Value.object (Fields.put key v fields)).Conforms (.object shape) := by
  cases fits with
  | object keys values =>
    have present : key ∈ Fields.keys fields :=
      (keys key).mpr (Fields.isSome_get?_iff.mp (by rw [described]; rfl))
    refine .object (fun k => ?_) fun k w t found described' => ?_
    · rw [Fields.keys_put, if_pos present]
      exact keys k
    · by_cases same : k = key
      · subst same
        rw [Fields.get?_put] at found
        rw [described] at described'
        cases found
        cases described'
        exact held
      · rw [Fields.get?_put_of_ne same] at found
        exact values k w t found described'

/-- If all values of an object's shape have another, then the keys are the same and the values of
each field of the one have the shape of that field of the other. -/
theorem fields_of_covers {fs gs : Fields Schema} (known : Known (.object gs))
    (covers : ∀ v : Value, v.Conforms (.object gs) → v.Conforms (.object fs)) :
    (∀ key, key ∈ Fields.keys gs ↔ key ∈ Fields.keys fs) ∧
      ∀ key s t, Fields.get? key fs = some s → Fields.get? key gs = some t →
        ∀ v : Value, v.Conforms t → v.Conforms s := by
  have sampled : (Value.object (sampleFields gs)).Conforms (.object gs) := conforms_sample known
  constructor
  · intro key
    cases covers _ sampled with
    | object keys _ =>
      rw [← keys key, keys_sampleFields]
  · intro key s t described described' v held
    cases covers _ (conforms_put sampled described' held) with
    | object _ values => exact values key v s (Fields.get?_put v _) described

/-- Only equal schemas describe all the values of another. -/
theorem equal_of_covers (known : Known r) (distinctLeft : Distinct l) (distinctRight : Distinct r)
    (covers : ∀ v : Value, v.Conforms r → v.Conforms l) : l.equal r = true := by
  induction l using shape_induction generalizing r with
  | unknown =>
    have sampled := covers _ (conforms_sample known)
    generalize r.sample = v at sampled
    cases sampled
  | boolean | number | string =>
    have sampled := covers _ (conforms_sample known)
    cases r <;> first | rfl | cases sampled
  | array item ih =>
    have sampled := covers _ (conforms_sample known)
    cases r with
    | array other =>
      rw [equal]
      apply ih (known_array.mp known) (distinct_array.mp distinctLeft)
        (distinct_array.mp distinctRight)
      intro v fits
      have single : (Value.array [v]).Conforms (.array other) :=
        .array fun w member => List.mem_singleton.mp member ▸ fits
      cases covers _ single with
      | array items => exact items v (.head _)
    | _ => cases sampled
  | object fs ih =>
    have sampled := covers _ (conforms_sample known)
    cases r with
    | object gs =>
      obtain ⟨keys, values⟩ := fields_of_covers known covers
      rw [known_object] at known
      rw [distinct_object] at distinctLeft distinctRight
      have perm := (List.perm_ext_iff_of_nodup distinctRight.1 distinctLeft.1).mpr keys
      have length : fs.length = gs.length := by
        simpa [Fields.keys] using perm.length_eq.symm
      rw [equal, Bool.and_eq_true, beq_iff_eq]
      refine ⟨length, equalFields_iff.mpr fun key s member => ?_⟩
      have described := Fields.get?_of_mem distinctLeft.1 member
      have present : (Fields.get? key gs).isSome := by
        rw [Fields.isSome_get?_iff, keys, ← Fields.isSome_get?_iff, described]
        rfl
      obtain ⟨t, described'⟩ := Option.isSome_iff_exists.mp present
      have inside := Fields.mem_of_get? described'
      exact ⟨t, described', ih _ member (known _ inside) (distinctLeft.2 _ member)
        (distinctRight.2 _ inside) (values key s t described described')⟩
    | _ => cases sampled

end Schema
end JsonQuery
