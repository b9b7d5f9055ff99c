import JsonQuery.Evaluation.Operators
import JsonQuery.Proofs.Number.Code
import JsonQuery.Proofs.Schema.Conformance
import JsonQuery.Proofs.Value.Part
import Mathlib.Data.List.Forall2

/-! Equality of values as a relation. It looks the fields of one side up in the other, and since no
key comes twice and both sides have the same number of fields, the other side has no more of them.
Apart from what is not a number this is an equivalence, and it does not see the order of keys,
however deep they stand. -/
namespace JsonQuery.Value

variable {u v w : Value} {xs ys : List Value} {fs gs : Fields Value}

structure SameItems (xs ys : List Value) : Prop where
  length : xs.length = ys.length
  values : ∀ (i : Nat) x y, xs[i]? = some x → ys[i]? = some y → equal x y = true

/-- Arrays compare in order. -/
theorem equal_array_iff : (array xs).equal (array ys) = true ↔ SameItems xs ys := by
  have inOrder : (array xs).equal (array ys) = true ↔
      List.Forall₂ (fun x y => x.equal y = true) xs ys := by
    rw [equal]
    induction xs generalizing ys with
    | nil => cases ys <;> simp [equalItems]
    | cons x xs ih => cases ys <;> simp [equalItems, ih]
  rw [inOrder, List.forall₂_iff_get]
  constructor
  · rintro ⟨length, same⟩
    refine ⟨length, fun i x y held held' => ?_⟩
    obtain ⟨inside, rfl⟩ := List.getElem?_eq_some_iff.mp held
    obtain ⟨inside', rfl⟩ := List.getElem?_eq_some_iff.mp held'
    exact same i inside inside'
  · rintro ⟨length, values⟩
    refine ⟨length, fun i inside inside' => ?_⟩
    exact values i _ _ (List.getElem?_eq_getElem inside) (List.getElem?_eq_getElem inside')

/-- Every field of the first list has an equal one with the same key in the second. -/
theorem equalFields_iff : equalFields fs gs = true ↔
    ∀ key v, (key, v) ∈ fs → ∃ w, Fields.get? key gs = some w ∧ v.equal w = true := by
  induction fs with
  | nil => simp [equalFields]
  | cons field fs ih =>
    obtain ⟨k, v⟩ := field
    simp only [equalFields, Bool.and_eq_true, ih, List.mem_cons, Prod.mk.injEq]
    constructor
    · rintro ⟨first, rest⟩ key t (⟨rfl, rfl⟩ | later)
      · cases found : Fields.get? key gs with
        | none => simp [found] at first
        | some u => exact ⟨u, rfl, by simpa [found] using first⟩
      · exact rest key t later
    · intro all
      refine ⟨?_, fun key t later => all key t (.inr later)⟩
      obtain ⟨u, found, same⟩ := all k v (.inl ⟨rfl, rfl⟩)
      simpa [found] using same

/-- The same keys, and equal values for each of them. -/
structure SameFields (fs gs : Fields Value) : Prop where
  keys : ∀ key, key ∈ Fields.keys fs ↔ key ∈ Fields.keys gs
  values : ∀ key v w, Fields.get? key fs = some v → Fields.get? key gs = some w → v.equal w = true

/-- Objects without repetition of keys compare by key. -/
theorem equal_object_iff (unique : (Fields.keys fs).Nodup) (unique' : (Fields.keys gs).Nodup) :
    (object fs).equal (object gs) = true ↔ SameFields fs gs := by
  rw [equal, Bool.and_eq_true, beq_iff_eq, equalFields_iff]
  constructor
  · rintro ⟨length, found⟩
    have perm : (Fields.keys fs).Perm (Fields.keys gs) :=
      Fields.keys_perm unique length fun key v member =>
        let ⟨w, held, _⟩ := found key v member
        ⟨w, held⟩
    refine ⟨fun key => perm.mem_iff, fun key v w held held' => ?_⟩
    obtain ⟨w', held'', same⟩ := found key v (Fields.mem_of_get? held)
    rw [held'] at held''
    cases held''
    exact same
  · rintro ⟨keys, values⟩
    have perm : (Fields.keys fs).Perm (Fields.keys gs) :=
      (List.perm_ext_iff_of_nodup unique unique').mpr keys
    refine ⟨by simpa [Fields.keys] using perm.length_eq, fun key v member => ?_⟩
    have inside : key ∈ Fields.keys gs := (keys key).mp (List.mem_map_of_mem member)
    obtain ⟨w, held⟩ := Option.isSome_iff_exists.mp (Fields.isSome_get?_iff.mpr inside)
    exact ⟨w, held, values key v w (Fields.get?_of_mem unique member) held⟩

/-! ### An equivalence -/

/-- Values that equality is made for: no object has two entries for a key, and every number is
one. -/
structure Comparable (v : Value) : Prop where
  distinct : Distinct v
  numbers : ∀ n, Part (.number n) v → Number.isNaN n = false

@[simp] theorem comparable_null : Comparable null := ⟨distinct_null, nofun⟩

@[simp] theorem comparable_boolean (b : Bool) : Comparable (boolean b) :=
  ⟨distinct_boolean b, nofun⟩

@[simp] theorem comparable_string (s : String) : Comparable (string s) :=
  ⟨distinct_string s, nofun⟩

@[simp] theorem comparable_number (n : Float) :
    Comparable (number n) ↔ Number.isNaN n = false := by
  constructor
  · exact fun comparable => comparable.numbers n .whole
  · rintro number
    constructor
    · exact distinct_number n
    · rintro _ ⟨⟩
      exact number

@[simp] theorem comparable_array : Comparable (array xs) ↔ ∀ x ∈ xs, Comparable x := by
  constructor
  · intro comparable x member
    constructor
    · exact distinct_array.mp comparable.distinct x member
    · exact fun n inner => comparable.numbers n (.item member inner)
  · intro items
    constructor
    · exact distinct_array.mpr fun x member => (items x member).distinct
    · rintro n (⟨⟩ | ⟨member, inner⟩)
      exact (items _ member).numbers n inner

@[simp] theorem comparable_object : Comparable (object fs) ↔
    (Fields.keys fs).Nodup ∧ ∀ field ∈ fs, Comparable field.2 := by
  constructor
  · intro comparable
    obtain ⟨unique, distinct⟩ := distinct_object.mp comparable.distinct
    refine ⟨unique, fun field member => ?_⟩
    constructor
    · exact distinct field member
    · exact fun n inner => comparable.numbers n (.field member inner)
  · rintro ⟨unique, fields⟩
    constructor
    · exact distinct_object.mpr ⟨unique, fun field member => (fields field member).distinct⟩
    · rintro n (⟨⟩ | _ | ⟨member, inner⟩)
      exact (fields _ member).numbers n inner

/-- Values that are told apart by nothing but the sign of zeros and the order of keys. -/
inductive Alike : Value → Value → Prop where
  | null : Alike null null
  | boolean (b : Bool) : Alike (boolean b) (boolean b)
  | number {n m : Float} : (n == m) = true → Alike (number n) (number m)
  | string (s : String) : Alike (string s) (string s)
  | array {xs ys : List Value} : xs.length = ys.length →
    (∀ (i : Nat) x y, xs[i]? = some x → ys[i]? = some y → Alike x y) → Alike (array xs) (array ys)
  | object {fs gs : Fields Value} : (∀ key, key ∈ Fields.keys fs ↔ key ∈ Fields.keys gs) →
    (∀ key v w, Fields.get? key fs = some v → Fields.get? key gs = some w → Alike v w) →
    Alike (object fs) (object gs)

theorem Alike.symm (h : Alike v w) : Alike w v := by
  induction h with
  | null => exact .null
  | boolean b => exact .boolean b
  | number same => exact .number (BEq.symm same)
  | string s => exact .string s
  | array length _ ih => exact .array length.symm fun i y x held' held => ih i x y held held'
  | object keys _ ih =>
    exact .object (fun key => (keys key).symm) fun key w v held' held => ih key v w held held'

/-- What stands in a place of the first value has something in the same place of the second. -/
theorem Alike.trans (first : Alike u v) (second : Alike v w) : Alike u w := by
  induction first generalizing w with
  | null => exact second
  | boolean b => exact second
  | number same =>
    cases second with
    | number same' => exact .number (BEq.trans same same')
  | string s => exact second
  | @array xs ys length _ ih =>
    cases second with
    | array length' values =>
      refine .array (length.trans length') fun i x z held held'' => ?_
      obtain ⟨inside, -⟩ := List.getElem?_eq_some_iff.mp held
      have held' := List.getElem?_eq_getElem (length ▸ inside : i < ys.length)
      exact ih i x _ held held' (values i _ z held' held'')
  | @object fs gs keys _ ih =>
    cases second with
    | object keys' values =>
      refine .object (fun key => (keys key).trans (keys' key)) fun key u w held held'' => ?_
      have inside : key ∈ Fields.keys gs :=
        (keys key).mp (Fields.isSome_get?_iff.mp (by rw [held]; rfl))
      obtain ⟨v, held'⟩ := Option.isSome_iff_exists.mp (Fields.isSome_get?_iff.mpr inside)
      exact ih key u v held held' (values key v w held' held'')

/-- Only what is not a number differs from itself. -/
theorem Alike.refl (numbers : ∀ n, Part (.number n) v → Number.isNaN n = false) : Alike v v := by
  induction v using part_induction with
  | null => exact .null
  | boolean b => exact .boolean b
  | number n => exact .number (Number.beq_self_of_isNaN (numbers n .whole))
  | string s => exact .string s
  | array items ih =>
    refine .array rfl fun i x y held held' => ?_
    obtain rfl : x = y := Option.some.inj (held.symm.trans held')
    have member := List.mem_of_getElem? held
    exact ih x member fun n inner => numbers n (.item member inner)
  | object fields ih =>
    refine .object (fun key => Iff.rfl) fun key v w held held' => ?_
    obtain rfl : v = w := Option.some.inj (held.symm.trans held')
    have member := Fields.mem_of_get? held
    exact ih _ member fun n inner => numbers n (.field member inner)

/-- Equality tells whether values are alike, if no object has two entries for a key. -/
theorem equal_iff_alike (distinct : Distinct v) (distinct' : Distinct w) :
    v.equal w = true ↔ Alike v w := by
  induction v using part_induction generalizing w with
  | null =>
    cases w with
    | null => exact iff_of_true rfl .null
    | _ => exact iff_of_false nofun nofun
  | boolean b =>
    cases w with
    | boolean c =>
      constructor
      · intro same
        exact eq_of_beq same ▸ .boolean b
      · rintro ⟨⟩
        exact beq_self_eq_true b
    | _ => exact iff_of_false nofun nofun
  | number n =>
    cases w with
    | number m => exact ⟨.number, fun | .number same => same⟩
    | _ => exact iff_of_false nofun nofun
  | string s =>
    cases w with
    | string t =>
      constructor
      · intro same
        exact eq_of_beq same ▸ .string s
      · rintro ⟨⟩
        exact beq_self_eq_true s
    | _ => exact iff_of_false nofun nofun
  | array xs ih =>
    cases w with
    | array ys =>
      rw [distinct_array] at distinct distinct'
      have inner {i : Nat} {x y : Value} (held : xs[i]? = some x) (held' : ys[i]? = some y) :
          x.equal y = true ↔ Alike x y :=
        ih x (List.mem_of_getElem? held) (distinct x (List.mem_of_getElem? held))
          (distinct' y (List.mem_of_getElem? held'))
      rw [equal_array_iff]
      constructor
      · rintro ⟨length, values⟩
        exact .array length fun i x y held held' =>
          (inner held held').mp (values i x y held held')
      · rintro (_ | _ | _ | _ | ⟨length, values⟩)
        exact ⟨length, fun i x y held held' => (inner held held').mpr (values i x y held held')⟩
    | _ => exact iff_of_false nofun nofun
  | object fs ih =>
    cases w with
    | object gs =>
      obtain ⟨unique, distinct⟩ := distinct_object.mp distinct
      obtain ⟨unique', distinct'⟩ := distinct_object.mp distinct'
      have inner {key : String} {v w : Value} (held : Fields.get? key fs = some v)
          (held' : Fields.get? key gs = some w) : v.equal w = true ↔ Alike v w :=
        have member := Fields.mem_of_get? held
        ih _ member (distinct _ member) (distinct' _ (Fields.mem_of_get? held'))
      rw [equal_object_iff unique unique']
      constructor
      · rintro ⟨keys, values⟩
        exact .object keys fun key v w held held' =>
          (inner held held').mp (values key v w held held')
      · rintro (_ | _ | _ | _ | _ | ⟨keys, values⟩)
        exact ⟨keys, fun key v w held held' =>
          (inner held held').mpr (values key v w held held')⟩
    | _ => exact iff_of_false nofun nofun

/-- Values that differ in the order of keys, at any number of places inside. -/
inductive Reordered : Value → Value → Prop where
  | refl (v : Value) : Reordered v v
  | keys {fs gs : Fields Value} : fs.Perm gs → Reordered (object fs) (object gs)
  | item {v w : Value} (before after : List Value) : Reordered v w →
    Reordered (array (before ++ v :: after)) (array (before ++ w :: after))
  | field {key : String} {v w : Value} (before after : Fields Value) : Reordered v w →
    Reordered (object (before ++ (key, v) :: after)) (object (before ++ (key, w) :: after))
  | trans {u v w : Value} : Reordered u v → Reordered v w → Reordered u w

theorem Comparable.refl (comparable : Comparable v) : Alike v v := .refl comparable.numbers

theorem alike_of_perm (comparable : Comparable (object fs)) (perm : fs.Perm gs) :
    Alike (object fs) (object gs) := by
  obtain ⟨unique, comparable⟩ := comparable_object.mp comparable
  have keys : (Fields.keys fs).Perm (Fields.keys gs) := perm.map _
  refine .object (fun key => keys.mem_iff) fun key v w held held' => ?_
  have member := Fields.mem_of_get? held
  have again := Fields.get?_of_mem (keys.nodup_iff.mp unique) (perm.mem_iff.mp member)
  obtain rfl : v = w := Option.some.inj (again.symm.trans held')
  exact (comparable _ member).refl

theorem alike_of_item {before after : List Value}
    (comparable : Comparable (array (before ++ v :: after))) (same : Alike v w) :
    Alike (array (before ++ v :: after)) (array (before ++ w :: after)) := by
  rw [comparable_array] at comparable
  have others (x y : Value) (member : x ∈ before ++ v :: after) (equal : x = y) : Alike x y :=
    equal ▸ (comparable x member).refl
  refine .array (by simp) fun i x y held held' => ?_
  have member := List.mem_of_getElem? held
  rcases Nat.lt_trichotomy i before.length with earlier | rfl | later
  · rw [List.getElem?_append_left earlier] at held held'
    exact others x y member (Option.some.inj (held.symm.trans held'))
  · simp only [List.getElem?_append_right (Nat.le_refl _), Nat.sub_self, List.getElem?_cons_zero,
      Option.some.injEq] at held held'
    exact held ▸ held' ▸ same
  · obtain ⟨j, place⟩ : ∃ j, i - before.length = j + 1 := Nat.exists_eq_add_one.mpr (by omega)
    rw [List.getElem?_append_right (Nat.le_of_lt later), place, List.getElem?_cons_succ] at held
    rw [List.getElem?_append_right (Nat.le_of_lt later), place, List.getElem?_cons_succ] at held'
    exact others x y member (Option.some.inj (held.symm.trans held'))

theorem alike_of_field {key : String} {before after : Fields Value}
    (comparable : Comparable (object (before ++ (key, v) :: after))) (same : Alike v w) :
    Alike (object (before ++ (key, v) :: after)) (object (before ++ (key, w) :: after)) := by
  obtain ⟨unique, comparable⟩ := comparable_object.mp comparable
  have keys : Fields.keys (before ++ (key, v) :: after) =
      Fields.keys (before ++ (key, w) :: after) := by
    simp [Fields.keys]
  have unique' := keys ▸ unique
  refine .object (fun k => by rw [keys]) fun k x y held held' => ?_
  by_cases here : k = key
  · subst here
    have first : (k, v) ∈ before ++ (k, v) :: after := by simp
    have second : (k, w) ∈ before ++ (k, w) :: after := by simp
    obtain rfl : v = x := Option.some.inj ((Fields.get?_of_mem unique first).symm.trans held)
    obtain rfl : w = y := Option.some.inj ((Fields.get?_of_mem unique' second).symm.trans held')
    exact same
  · have member := Fields.mem_of_get? held
    have again : (k, x) ∈ before ++ (key, w) :: after := by
      simpa [here] using member
    obtain rfl : x = y :=
      Option.some.inj ((Fields.get?_of_mem unique' again).symm.trans held')
    exact (comparable _ member).refl

/-- What is reordered stays comparable, and nothing else changes. -/
theorem Reordered.alike (h : Reordered v w) (comparable : Comparable v) :
    Comparable w ∧ Alike v w := by
  induction h with
  | refl v => exact ⟨comparable, comparable.refl⟩
  | keys perm =>
    refine ⟨?_, alike_of_perm comparable perm⟩
    rw [comparable_object] at comparable ⊢
    obtain ⟨unique, fields⟩ := comparable
    refine ⟨(perm.map _).nodup_iff.mp unique, fun field member => ?_⟩
    exact fields field (perm.mem_iff.mpr member)
  | @item v w before after _ ih =>
    have items := comparable_array.mp comparable
    rw [List.forall_mem_append, List.forall_mem_cons] at items
    obtain ⟨first, middle, last⟩ := items
    obtain ⟨reordered, same⟩ := ih middle
    refine ⟨comparable_array.mpr ?_, alike_of_item comparable same⟩
    rw [List.forall_mem_append, List.forall_mem_cons]
    exact ⟨first, reordered, last⟩
  | @field key v w before after _ ih =>
    obtain ⟨unique, fields⟩ := comparable_object.mp comparable
    rw [List.forall_mem_append, List.forall_mem_cons] at fields
    obtain ⟨first, middle, last⟩ := fields
    obtain ⟨reordered, same⟩ := ih middle
    refine ⟨comparable_object.mpr ⟨?_, ?_⟩, alike_of_field comparable same⟩
    · simpa [Fields.keys] using unique
    · rw [List.forall_mem_append, List.forall_mem_cons]
      exact ⟨first, reordered, last⟩
  | trans _ _ ih ih' =>
    obtain ⟨between, same⟩ := ih comparable
    obtain ⟨reordered, same'⟩ := ih' between
    exact ⟨reordered, same.trans same'⟩

/-- Equality is an equivalence on values without repeated keys in which every number is one. Objects
are equal when they have the same keys and equal values for them, so that the order of keys does not
matter at any depth, and arrays are equal item by item. The operators ask for nothing else. -/
theorem equal_equivalence :
    Equivalence (fun v w : { v : Value // Comparable v } => v.1.equal w.1 = true) ∧
      (∀ fs gs, (Fields.keys fs).Nodup → (Fields.keys gs).Nodup →
        ((object fs).equal (object gs) = true ↔ SameFields fs gs)) ∧
      (∀ v w, Comparable v → Reordered v w → v.equal w = true) ∧
      (∀ xs ys, (array xs).equal (array ys) = true ↔ SameItems xs ys) ∧
      ∀ v w items,
        Evaluation.binary .equal v w = .ok (.boolean (v.equal w)) ∧
        Evaluation.binary .notEqual v w = .ok (.boolean (!v.equal w)) ∧
        Evaluation.binary .contains (.array items) v = Evaluation.binary .isIn v (.array items) ∧
        (Evaluation.binary .isIn v (.array items) = .ok (.boolean true) ↔
          ∃ item ∈ items, item.equal v = true) := by
  have alike (v w : { v : Value // Comparable v }) : v.1.equal w.1 = true ↔ Alike v.1 w.1 :=
    equal_iff_alike v.2.distinct w.2.distinct
  refine ⟨⟨?_, ?_, ?_⟩, ?_, ?_, ?_, ?_⟩
  · exact fun v => (alike v v).mpr v.2.refl
  · exact fun {v w} same => (alike w v).mpr ((alike v w).mp same).symm
  · exact fun {u v w} first second =>
      (alike u w).mpr (((alike u v).mp first).trans ((alike v w).mp second))
  · exact fun fs gs => equal_object_iff
  · intro v w comparable reordered
    obtain ⟨comparable', same⟩ := reordered.alike comparable
    exact (alike ⟨v, comparable⟩ ⟨w, comparable'⟩).mpr same
  · exact fun xs ys => equal_array_iff
  · refine fun v w items => ⟨rfl, rfl, rfl, ?_⟩
    simp [Evaluation.binary, Evaluation.contains]

/-- Keys stand in another order inside and outside. Both zeros are equal, and an item is found by a
value that is equal to it. -/
theorem equal_equivalence_reordered :
    let zero := number (Number.ofCode false 0)
    let inner := object [("x", null), ("y", string "s")]
    let inner' := object [("y", string "s"), ("x", null)]
    let u := object [("a", zero), ("b", array [inner])]
    let v := object [("b", array [inner']), ("a", zero)]
    let w := object [("b", array [inner']), ("a", number (Number.ofCode true 0))]
    Reordered u v ∧ u.equal v = true ∧ v.equal u = true ∧ v.equal w = true ∧ u.equal w = true ∧
      SameFields [("a", zero), ("b", array [inner])] [("b", array [inner']), ("a", zero)] ∧
      Evaluation.binary .isIn u (.array [null, v]) = .ok (.boolean true) := by
  intro zero inner inner' u v w
  have comparable : Comparable u ∧ Comparable v ∧ Comparable w := by
    have numbers : Number.isNaN (Number.ofCode false 0) = false ∧
        Number.isNaN (Number.ofCode true 0) = false := by decide
    simp [u, v, w, zero, inner, inner', Fields.keys, numbers]
  obtain ⟨comparable, comparable', comparable''⟩ := comparable
  have reordered : Reordered u v :=
    (Reordered.field [("a", zero)] [] (.item [] [] (.keys (.swap _ _ [])))).trans
      (.keys (.swap _ _ []))
  obtain ⟨⟨_, symm, trans⟩, objects, orders, _, operators⟩ := equal_equivalence
  have same := orders u v comparable reordered
  have same' : v.equal w = true := by decide
  have back := @symm ⟨u, comparable⟩ ⟨v, comparable'⟩ same
  have far := @trans ⟨u, comparable⟩ ⟨v, comparable'⟩ ⟨w, comparable''⟩ same same'
  refine ⟨reordered, same, back, same', far, (objects _ _ ?_ ?_).mp same, ?_⟩
  · simp [Fields.keys]
  · simp [Fields.keys]
  · exact (operators u v [null, v]).2.2.2.mpr ⟨v, by simp, back⟩

end JsonQuery.Value
