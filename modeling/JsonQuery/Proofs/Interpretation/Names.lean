import JsonQuery.Evaluation.Run

/-! What an expression can see of its input. Names are the only way to the input, and a member or a
condition is visited with another item in its place. So inputs in which the names of an expression
stand for the same are the same to it. -/
namespace JsonQuery

namespace Expr

/-- All names in an expression, whatever they refer to. -/
def names : Expr → List String
  | literal _ _ => []
  | identifier name _ => [name]
  | unary _ a _ => a.names
  | field a b _ | index a b _ | slice a b _ | binary _ a b _ | filter a b _ => a.names ++ b.names

def inputNames : Expr → List String
  | literal _ _ => []
  | identifier name _ => [name]
  | unary _ a _ | field a _ _ | filter a _ _ => a.inputNames
  | index a b _ | slice a b _ | binary _ a b _ => a.inputNames ++ b.inputNames

theorem mem_names_of_mem_inputNames {e : Expr} {name : String} (member : name ∈ e.inputNames) :
    name ∈ e.names := by
  induction e with
  | literal value span | identifier _ span => exact member
  | unary op a span ih => exact ih member
  | field a b span iha _ | filter a b span iha _ => exact List.mem_append_left _ (iha member)
  | index a b span iha ihb | slice a b span iha ihb | binary op a b span iha ihb =>
    rcases List.mem_append.mp member with first | second
    · exact List.mem_append_left _ (iha first)
    · exact List.mem_append_right _ (ihb second)

end Expr

/-- A visit looks at the item that it is given through the names that refer to it, and in no other
way. -/
theorem Interpretation.meaning_congr {ε α : Type} {i : Interpretation ε α} {e : Expr}
    {ambient ambient' : α}
    (agree : ∀ name ∈ e.inputNames, i.identifier name ambient = i.identifier name ambient') :
    i.meaning e ambient = i.meaning e ambient' := by
  induction e with
  | literal value span => rfl
  | identifier name span =>
    rw [meaning, meaning, agree name List.mem_cons_self]
  | unary op a span ih => rw [meaning, meaning, ih agree]
  | field a b span iha _ | filter a b span iha _ =>
    -- What stands on the right is visited with the results of the left.
    rw [meaning, meaning, iha agree]
  | index a b span iha ihb | slice a b span iha ihb | binary op a b span iha ihb =>
    have first := iha fun name member => agree name (List.mem_append_left _ member)
    have second := ihb fun name member => agree name (List.mem_append_right _ member)
    rw [meaning, meaning, first, second]

namespace Evaluation

variable {o : Options} {fields fields' : Fields Value}

/-- A name stands for its value in an object. Without one it matters only that the object is one. -/
theorem identifier_object_congr {name : String} (other : name ≠ "@")
    (same : Fields.get? name fields = Fields.get? name fields') :
    identifier o name (.object fields) = identifier o name (.object fields') := by
  simp only [identifier, if_neg other, special?, Value.get?, Option.none_or, same]
  cases Fields.get? name fields' with
  | some v => rfl
  | none => cases o.strict <;> rfl

/-- Keys that an expression does not name have no influence on it. A run on two objects that give
the same values to the names has one outcome, be it a value or a failure, whatever else the objects
hold and in whatever order. -/
theorem run_object_congr (o : Options) (e : Expr) (fields fields' : Fields Value)
    (nameless : "@" ∉ e.names)
    (agree : ∀ name ∈ e.names, Fields.get? name fields = Fields.get? name fields') :
    run o e (.object fields) = run o e (.object fields') := by
  apply Interpretation.meaning_congr
  intro name member
  have named := Expr.mem_names_of_mem_inputNames member
  apply identifier_object_congr
  · rintro rfl
    exact nameless named
  · exact agree name named

/-- `(xs where n == "b")[k]`, in which the second name refers to items. -/
def pickedMatch : Expr :=
  .index
    (.filter (.identifier "xs" ⟨1, 2⟩)
      (.binary .equal (.identifier "n" ⟨10, 1⟩) (.literal (.string "b") ⟨15, 3⟩) ⟨12, 2⟩) ⟨4, 5⟩)
    (.identifier "k" ⟨20, 1⟩) ⟨19, 1⟩

/-- The missing key is reported in the same way for both objects, and other keys make no
difference. -/
theorem run_object_congr_pickedMatch :
    let xs : Value := .array [.object [("n", .string "b")]]
    run ⟨true, false⟩ pickedMatch (.object [("xs", xs), ("id", .number 1)]) =
        run ⟨true, false⟩ pickedMatch (.object [("m", .null), ("xs", xs), ("id", .number 2)]) ∧
      run ⟨true, false⟩ pickedMatch (.object [("xs", xs), ("id", .number 1)]) =
        .error ⟨.missingProperty "k" .object, ⟨20, 1⟩⟩ := by
  intro xs
  refine ⟨run_object_congr _ _ _ _ (by decide) ?_, rfl⟩
  intro name member
  have listed : name = "xs" ∨ name = "n" ∨ name = "k" := by
    simpa [pickedMatch, Expr.names] using member
  rcases listed with rfl | rfl | rfl <;> rfl

end Evaluation
end JsonQuery
