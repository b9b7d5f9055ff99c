import JsonQuery.Number.Binary
import JsonQuery.Value.Basic

/-! JSON documents, which tell whole numbers from other numbers, and how values become documents
and documents values. -/
namespace JsonQuery

inductive Json where
  | null
  | boolean (b : Bool)
  | integer (n : Int)
  | real (n : Float)
  | string (s : String)
  | array (items : List Json)
  | object (fields : List (String × Json))

namespace Json

/-- The magnitude from which on whole numbers are no longer written as integers. -/
def integerLimit : Nat := Nat.pow 2 53

/-- The document of a number. A whole number becomes an integer, which has no negative zero, and
null stands for a number that is not finite. -/
def ofNumber (n : Float) : Json :=
  if Number.isWhole n && Number.wholeMagnitude n < integerLimit then .integer (Number.toInt64 n)
  else if Number.isFinite n then .real n
  else .null

mutual

def ofValue : Value → Json
  | .null => .null
  | .boolean b => .boolean b
  | .number n => ofNumber n
  | .string s => .string s
  | .array items => .array (ofItems items)
  | .object fields => .object (ofFields fields)

def ofItems : List Value → List Json
  | [] => []
  | v :: vs => ofValue v :: ofItems vs

def ofFields : List (String × Value) → List (String × Json)
  | [] => []
  | (k, v) :: fields => (k, ofValue v) :: ofFields fields

end

mutual

def toValue : Json → Value
  | .null => .null
  | .boolean b => .boolean b
  | .integer n => .number (Number.ofInt n)
  | .real n => .number n
  | .string s => .string s
  | .array items => .array (toItems items)
  | .object fields => .object (toFields fields)

def toItems : List Json → List Value
  | [] => []
  | j :: js => toValue j :: toItems js

def toFields : List (String × Json) → List (String × Value)
  | [] => []
  | (k, j) :: fields => (k, toValue j) :: toFields fields

end

end Json
end JsonQuery
