import JsonQuery.Proofs.Schema.Inclusion
import JsonQuery.Proofs.Typing.Soundness
import JsonQuery.Query

/-! The schema of two arrays joined. The checker gives the joined array the items of the left one as
soon as both kinds of items agree. The items of the right array have that shape too when their
schemas are equal, and not otherwise. -/
namespace JsonQuery.Typing
open Schema

variable {l r t : Schema} {v w : Value}

theorem kind_ne_unknown {s : Schema} (known : Known s) : s.kind ≠ .unknown := by
  intro same
  apply known.ne_unknown
  cases s <;> first | rfl | cases same

/-- Where nothing is unknown, arrays are joined if their items are of one kind, to an array like the
left one. -/
theorem binary_add_arrays_eq_ok (knownLeft : Known l) (knownRight : Known r) :
    binary (.arithmetic .add) (.array l) (.array r) = .ok t ↔ l.kind = r.kind ∧ t = .array l := by
  have left := kind_ne_unknown knownLeft
  have right := kind_ne_unknown knownRight
  change join l r = .ok t ↔ _
  unfold join
  by_cases same : l.kind = r.kind
  · simp [same, eq_comm]
  · simp [same, left, right]

/-- The checker is right about all sums of two arrays exactly when their item schemas are equal, or
of two kinds, where it accepts no sum. -/
theorem sums_conform_iff (knownLeft : Known l) (knownRight : Known r) (distinctLeft : Distinct l)
    (distinctRight : Distinct r) :
    (∀ t, binary (.arithmetic .add) (.array l) (.array r) = .ok t →
      ∀ v w : Value, v.Conforms (.array l) → w.Conforms (.array r) →
        ∃ u, Evaluation.binary (.arithmetic .add) v w = .ok u ∧ u.Conforms t) ↔
      (l.kind = r.kind → l.equal r = true) := by
  constructor
  · intro sound kinds
    have accepted := (binary_add_arrays_eq_ok knownLeft knownRight).mpr ⟨kinds, rfl⟩
    apply equal_of_covers knownRight distinctLeft distinctRight
    intro v fits
    have single : (Value.array [v]).Conforms (.array r) :=
      .array fun w member => List.mem_singleton.mp member ▸ fits
    have empty : (Value.array []).Conforms (.array l) := .array nofun
    obtain ⟨u, summed, conforms⟩ := sound _ accepted _ _ empty single
    cases summed
    cases conforms with
    | array items => exact items v (.head _)
  · intro equal t accepted v w fitsLeft fitsRight
    obtain ⟨kinds, rfl⟩ := (binary_add_arrays_eq_ok knownLeft knownRight).mp accepted
    cases fitsLeft with
    | @array xs _ inLeft =>
      cases fitsRight with
      | @array ys _ inRight =>
        refine ⟨.array (xs ++ ys), rfl, .array fun v member => ?_⟩
        rcases List.mem_append.mp member with left | right
        · exact inLeft v left
        · exact conforms_of_equal (inRight v right) distinctLeft (equal kinds)

/-- Objects with the same fields can be joined in whatever order they have them. -/
theorem sums_conform_reordered :
    let l : Schema := .object [("id", .number), ("tags", .array .string)]
    let r : Schema := .object [("tags", .array .string), ("id", .number)]
    Known l ∧ Known r ∧ Distinct l ∧ Distinct r ∧
      ∀ t, binary (.arithmetic .add) (.array l) (.array r) = .ok t →
        ∀ v w : Value, v.Conforms (.array l) → w.Conforms (.array r) →
          ∃ u, Evaluation.binary (.arithmetic .add) v w = .ok u ∧ u.Conforms t := by
  intro l r
  have knownLeft : Known l := by simp [l]
  have knownRight : Known r := by simp [r]
  have distinctLeft : Distinct l := by simp [l, Fields.keys]
  have distinctRight : Distinct r := by simp [r, Fields.keys]
  exact ⟨knownLeft, knownRight, distinctLeft, distinctRight,
    (sums_conform_iff knownLeft knownRight distinctLeft distinctRight).mpr fun _ => by decide⟩

/-- Objects with other fields are joined as well, and then a condition that has been accepted misses
a field. -/
theorem sum_not_conforms :
    let l : Schema := .object [("x", .number)]
    let r : Schema := .object [("y", .string)]
    let xs : Value := .array [.object [("x", .number 1)]]
    let ys : Value := .array [.object [("y", .string "s")]]
    let input : Value := .object [("a", xs), ("b", ys)]
    (Known l ∧ Known r ∧ xs.Conforms (.array l) ∧ ys.Conforms (.array r)) ∧
      binary (.arithmetic .add) (.array l) (.array r) = .ok (.array l) ∧
      (∃ u, Evaluation.binary (.arithmetic .add) xs ys = .ok u ∧ ¬u.Conforms (.array l)) ∧
      Query.eval ⟨true, false⟩ "(a + b) where x" (some input) input =
        .error (.runtime ⟨.missingProperty "x" .object, ⟨14, 1⟩⟩) := by
  intro l r xs ys input
  have single {key : String} {v : Value} {s : Schema} (fits : v.Conforms s) :
      (Value.array [.object [(key, v)]]).Conforms (.array (.object [(key, s)])) := by
    refine .array fun w member => ?_
    cases List.mem_singleton.mp member
    refine .object (fun _ => Iff.rfl) fun k w t held described => ?_
    cases List.mem_singleton.mp (Fields.mem_of_get? held)
    cases List.mem_singleton.mp (Fields.mem_of_get? described)
    exact fits
  refine ⟨⟨by simp [l], by simp [r], single (.number 1), single (.string "s")⟩, rfl,
    ⟨_, rfl, fun conforms => ?_⟩, by with_unfolding_all rfl⟩
  cases conforms with
  | array items =>
    have last : (Value.object [("y", .string "s")]).Conforms (.object [("x", .number)]) :=
      items _ (by simp)
    cases last with
    | object keys _ => simpa [Fields.keys] using keys "x"

end JsonQuery.Typing
