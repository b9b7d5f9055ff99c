import JsonQuery.Number.Binary
import JsonQuery.Value.Basic

/-! What stands inside a value, how deep it stands there, and what becomes of a value when its
numbers are replaced. -/
namespace JsonQuery.Value

/-- What holds of a value when it holds of its items and of its fields holds of every value. -/
@[elab_as_elim] theorem part_induction {motive : Value → Prop} (null : motive .null)
    (boolean : ∀ b, motive (.boolean b)) (number : ∀ n, motive (.number n))
    (string : ∀ s, motive (.string s))
    (array : ∀ items, (∀ v ∈ items, motive v) → motive (.array items))
    (object : ∀ fields, (∀ field ∈ fields, motive field.2) → motive (.object fields))
    (v : Value) : motive v :=
  @Value.rec motive (fun items => ∀ v ∈ items, motive v)
    (fun fields => ∀ field ∈ fields, motive field.2) (fun field => motive field.2)
    null boolean number string array object
    nofun (fun _ _ first rest => List.forall_mem_cons.mpr ⟨first, rest⟩)
    nofun (fun _ _ first rest => List.forall_mem_cons.mpr ⟨first, rest⟩) (fun _ _ value => value) v

/-- A value stands somewhere inside another, or is the whole of it. -/
inductive Part (p : Value) : Value → Prop where
  | whole : Part p p
  | item {v : Value} {items : List Value} : v ∈ items → Part p v → Part p (.array items)
  | field {key : String} {v : Value} {fields : Fields Value} :
    (key, v) ∈ fields → Part p v → Part p (.object fields)

variable {p v : Value} {items : List Value} {fields : Fields Value}

/-- No object in the value has two entries for a key. -/
def Distinct (v : Value) : Prop := ∀ fields, Part (.object fields) v → (Fields.keys fields).Nodup

/-- No number in the value is infinite or not a number. -/
def Finite (v : Value) : Prop := ∀ n, Part (.number n) v → Number.isFinite n = true

@[simp]
theorem distinct_array : Distinct (.array items) ↔ ∀ v ∈ items, Distinct v := by
  constructor
  · exact fun distinct v member fields inner => distinct fields (.item member inner)
  · rintro distinct fields (⟨⟩ | ⟨member, inner⟩)
    exact distinct _ member fields inner

@[simp]
theorem distinct_object : Distinct (.object fields) ↔
    (Fields.keys fields).Nodup ∧ ∀ field ∈ fields, Distinct field.2 := by
  constructor
  · exact fun distinct => ⟨distinct fields .whole,
      fun field member fields inner => distinct fields (.field member inner)⟩
  · rintro ⟨unique, distinct⟩ fields (⟨⟩ | _ | ⟨member, inner⟩)
    · exact unique
    · exact distinct _ member fields inner

@[simp]
theorem distinct_null : Distinct .null := nofun

@[simp]
theorem distinct_boolean (b : Bool) : Distinct (.boolean b) := nofun

@[simp]
theorem distinct_number (n : Float) : Distinct (.number n) := nofun

@[simp]
theorem distinct_string (s : String) : Distinct (.string s) := nofun

@[simp]
theorem finite_array : Finite (.array items) ↔ ∀ v ∈ items, Finite v := by
  constructor
  · exact fun finite v member n inner => finite n (.item member inner)
  · rintro finite n (⟨⟩ | ⟨member, inner⟩)
    exact finite _ member n inner

@[simp]
theorem finite_object : Finite (.object fields) ↔ ∀ field ∈ fields, Finite field.2 := by
  constructor
  · exact fun finite field member n inner => finite n (.field member inner)
  · rintro finite n (⟨⟩ | _ | ⟨member, inner⟩)
    exact finite _ member n inner

@[simp]
theorem finite_null : Finite .null := nofun

@[simp]
theorem finite_boolean (b : Bool) : Finite (.boolean b) := nofun

@[simp]
theorem finite_number (n : Float) : Finite (.number n) ↔ Number.isFinite n = true := by
  constructor
  · exact fun finite => finite n .whole
  · rintro finite _ ⟨⟩
    exact finite

@[simp]
theorem finite_string (s : String) : Finite (.string s) := nofun

mutual

def nesting : Value → Nat
  | array items => nestingItems items + 1
  | object fields => nestingFields fields + 1
  | _ => 0

def nestingItems : List Value → Nat
  | [] => 0
  | v :: vs => max (nesting v) (nestingItems vs)

def nestingFields : List (String × Value) → Nat
  | [] => 0
  | (_, v) :: fields => max (nesting v) (nestingFields fields)

end

mutual

/-- A value with something else for each of its numbers. -/
def replaceNumbers (f : Float → Value) : Value → Value
  | number n => f n
  | array items => .array (replaceNumbersItems f items)
  | object fields => .object (replaceNumbersFields f fields)
  | v => v

def replaceNumbersItems (f : Float → Value) : List Value → List Value
  | [] => []
  | v :: vs => replaceNumbers f v :: replaceNumbersItems f vs

def replaceNumbersFields (f : Float → Value) : List (String × Value) → List (String × Value)
  | [] => []
  | (k, v) :: fields => (k, replaceNumbers f v) :: replaceNumbersFields f fields

end

variable {f : Float → Value}

mutual

/-- Numbers that stand for themselves are left alone. -/
theorem replaceNumbers_eq (v : Value) (same : ∀ n, Part (.number n) v → f n = .number n) :
    replaceNumbers f v = v := by
  cases v with
  | number n => exact same n .whole
  | array items =>
    rw [replaceNumbers, replaceNumbersItems_eq items fun v member n inner =>
      same n (.item member inner)]
  | object fields =>
    rw [replaceNumbers, replaceNumbersFields_eq fields fun field member n inner =>
      same n (.field member inner)]
  | null | boolean | string => rfl

theorem replaceNumbersItems_eq (vs : List Value)
    (same : ∀ v ∈ vs, ∀ n, Part (.number n) v → f n = .number n) :
    replaceNumbersItems f vs = vs := by
  cases vs with
  | nil => rfl
  | cons v vs =>
    rw [replaceNumbersItems, replaceNumbers_eq v (same v List.mem_cons_self),
      replaceNumbersItems_eq vs fun v member => same v (List.mem_cons_of_mem _ member)]

theorem replaceNumbersFields_eq (fields : List (String × Value))
    (same : ∀ field ∈ fields, ∀ n, Part (.number n) field.2 → f n = .number n) :
    replaceNumbersFields f fields = fields := by
  cases fields with
  | nil => rfl
  | cons field fields =>
    rw [replaceNumbersFields, replaceNumbers_eq field.2 (same field List.mem_cons_self),
      replaceNumbersFields_eq fields fun field member => same field (List.mem_cons_of_mem _ member)]

end

/-- Null stands for a number that has no text. -/
def printableNumber (n : Float) : Value := if Number.isFinite n then .number n else .null

def printable (v : Value) : Value := replaceNumbers printableNumber v

theorem printable_of_finite (finite : Finite v) : v.printable = v :=
  replaceNumbers_eq v fun n part => if_pos (finite n part)

end JsonQuery.Value
