import JsonQuery.Value.Basic

/-! Schemas describe what values look like. A schema is taken from one example, where null and the
items of an empty array say nothing, and the first item of an array speaks for all. -/
namespace JsonQuery

inductive Schema where
  | unknown
  | boolean
  | number
  | string
  | array (item : Schema)
  | object (fields : List (String × Schema))

namespace Schema

mutual

def ofValue : Value → Schema
  | .null => unknown
  | .boolean _ => boolean
  | .number _ => number
  | .string _ => string
  | .array items => array (ofItems items)
  | .object fields => object (ofFields fields)

def ofItems : List Value → Schema
  | [] => unknown
  | v :: _ => ofValue v

def ofFields : List (String × Value) → List (String × Schema)
  | [] => []
  | (k, v) :: fields => (k, ofValue v) :: ofFields fields

end

def kind : Schema → Kind
  | unknown => .unknown
  | boolean => .boolean
  | number => .number
  | string => .string
  | array _ => .array
  | object _ => .object

def property? (key : String) : Schema → Option Schema
  | object fields => Fields.get? key fields
  | _ => none

/-- How messages call a schema. Of an object they give the keys. -/
def describe : Schema → String
  | array item => "array of " ++ item.describe
  | object fields => "object with keys [" ++ ", ".intercalate (Fields.keys fields) ++ "]"
  | s => s.kind.name

mutual

/-- Equality of schemas, in which the order of keys does not matter. -/
def equal : Schema → Schema → Bool
  | unknown, unknown => true
  | boolean, boolean => true
  | number, number => true
  | string, string => true
  | array a, array b => equal a b
  | object fs, object gs => fs.length == gs.length && equalFields fs gs
  | _, _ => false

def equalFields : List (String × Schema) → List (String × Schema) → Bool
  | [], _ => true
  | (k, s) :: fs, gs =>
    (match Fields.get? k gs with
      | some t => equal s t
      | none => false) && equalFields fs gs

end

end Schema
end JsonQuery
