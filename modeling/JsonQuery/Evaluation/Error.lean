import JsonQuery.Number.Notation
import JsonQuery.Report
import JsonQuery.Value.Basic

/-! The reasons for which an evaluation fails. -/
namespace JsonQuery

inductive RuntimeError where
  | missingProperty (name : String) (kind : Kind)
  | notIndexable (kind : Kind)
  | badIndex (kind : Kind)
  | badBounds
  | badBound (kind : Kind)
  | outOfRange (index : Float) (length : Nat)
  | reversedBounds (first last : Float)
  | notNumber (kind : Kind)
  | incompatible (left right : Kind)
  | divisionByZero
  | notFilterable (kind : Kind)
  | notInstant (text : String)

namespace RuntimeError

/-- A division by zero is reported as one, and all other failures with a message of their own. -/
def report (e : Located RuntimeError) : Report :=
  let runtime (message : String) : Report := ⟨.runtime, message, e.span⟩
  match e.cause with
  | .missingProperty name kind => runtime ("cannot get " ++ name ++ " from " ++ kind.name)
  | .notIndexable kind => runtime ("can only index strings or arrays but got " ++ kind.name)
  | .badIndex kind => runtime ("array index must be number or slice but found " ++ kind.name)
  | .badBounds => runtime "slice bounds must be a pair of numbers"
  | .badBound kind => runtime ("slice index must be a number but found " ++ kind.name)
  | .outOfRange index length =>
    runtime ("index " ++ Number.display index ++ " out of range for length " ++ toString length)
  | .reversedBounds first last =>
    runtime ("slice start " ++ Number.display first ++ " is after end " ++ Number.display last)
  | .notNumber kind => runtime ("unable to convert " ++ kind.name ++ " to number")
  | .incompatible left right =>
    runtime ("cannot operate on incompatible types " ++ left.name ++ " and " ++ right.name)
  | .divisionByZero => Report.divisionByZero e.span
  | .notFilterable kind => runtime ("where requires an array but found " ++ kind.name)
  | .notInstant text => runtime ("unable to parse `" ++ text ++ "` as a date or time")

end RuntimeError
end JsonQuery
