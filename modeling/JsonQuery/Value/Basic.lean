import JsonQuery.Value.Fields

/-! The values that expressions take and give. All numbers are binary64 numbers, and the keys of an
object keep their order. Numbers are equal as numbers, so that the two zeros are equal and what is
not a number equals nothing. Arrays are equal in order, and objects by key. -/
namespace JsonQuery

inductive Kind where
  | unknown
  | null
  | boolean
  | number
  | string
  | array
  | object
deriving DecidableEq

def Kind.name : Kind → String
  | .unknown => "unknown"
  | .null => "null"
  | .boolean => "boolean"
  | .number => "number"
  | .string => "string"
  | .array => "array"
  | .object => "object"

inductive Value where
  | null
  | boolean (b : Bool)
  | number (n : Float)
  | string (s : String)
  | array (items : List Value)
  | object (fields : List (String × Value))

namespace Value

def kind : Value → Kind
  | null => .null
  | boolean _ => .boolean
  | number _ => .number
  | string _ => .string
  | array _ => .array
  | object _ => .object

/-- Numbers above zero and everything that is not empty count as true. -/
def isTruthy : Value → Bool
  | null => false
  | boolean b => b
  | number n => decide (0 < n)
  | string s => !s.isEmpty
  | array items => !items.isEmpty
  | object fields => !fields.isEmpty

def number? : Value → Option Float
  | number n => some n
  | _ => none

def get? (key : String) : Value → Option Value
  | object fields => Fields.get? key fields
  | _ => none

mutual

def equal : Value → Value → Bool
  | null, null => true
  | boolean a, boolean b => a == b
  | number a, number b => a == b
  | string a, string b => a == b
  | array xs, array ys => equalItems xs ys
  | object fs, object gs => fs.length == gs.length && equalFields fs gs
  | _, _ => false

def equalItems : List Value → List Value → Bool
  | [], [] => true
  | x :: xs, y :: ys => equal x y && equalItems xs ys
  | _, _ => false

/-- Whether every field has an equal one with the same key on the other side. -/
def equalFields : List (String × Value) → List (String × Value) → Bool
  | [], _ => true
  | (k, v) :: fs, gs =>
    (match Fields.get? k gs with
      | some w => equal v w
      | none => false) && equalFields fs gs

end

end Value
end JsonQuery
