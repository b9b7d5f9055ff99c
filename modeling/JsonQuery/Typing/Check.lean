import JsonQuery.Interpretation
import JsonQuery.Report
import JsonQuery.Schema.Basic

/-! The schema of an expression's result, from the schema of its input, and the reasons for which an
expression cannot fit. An unknown schema is accepted by every operator. -/
namespace JsonQuery

inductive TypeError where
  | missingProperty (name : String) (schema : Schema)
  | notIndexable (kind : Kind)
  | badIndex (kind : Kind)
  | badBound (kind : Kind)
  | notNumber (kind : Kind)
  | incomparable (left right : Kind)
  | incompatible (left right : Kind)
  | itemMismatch (left right : Kind)
  | notFilterable (kind : Kind)

namespace TypeError

def message : TypeError → String
  | .missingProperty name schema => "no property " ++ name ++ " in " ++ schema.describe
  | .notIndexable kind => "can only index strings or arrays but got " ++ kind.name
  | .badIndex kind => "array index must be number or slice but found " ++ kind.name
  | .badBound kind => "slice index must be a number but found " ++ kind.name
  | .notNumber kind => "expected number but found " ++ kind.name
  | .incomparable left right => "cannot compare " ++ left.name ++ " with " ++ right.name
  | .incompatible left right =>
    "cannot operate on incompatible types " ++ left.name ++ " and " ++ right.name
  | .itemMismatch left right =>
    "array item types don't match: " ++ left.name ++ " vs " ++ right.name
  | .notFilterable kind => "where requires an array but found " ++ kind.name

def report (e : Located TypeError) : Report := ⟨.type, e.cause.message, e.span⟩

end TypeError
end JsonQuery

namespace JsonQuery.Typing

def literal : Literal → Schema
  | .number _ => .number
  | .string _ => .string

def isNumeric : Schema → Bool
  | .number | .unknown => true
  | _ => false

/-- The names that strings and arrays answer to. On an object they are ordinary keys. -/
def special? (name : String) (ambient : Schema) : Option Schema :=
  match ambient with
  | .string =>
    if name = "length" then some .number
    else if name = "lower" ∨ name = "upper" then some .string
    else none
  | .array _ => if name = "length" then some .number else none
  | _ => none

def identifier (o : Options) (name : String) (ambient : Schema) : Except TypeError Schema :=
  if name = "@" then .ok ambient
  else match (special? name ambient).or (ambient.property? name) with
    | some schema => .ok schema
    | none =>
      match ambient with
      | .unknown => .ok .unknown
      | _ =>
        if o.fallsBackToName then .ok .string else .error (.missingProperty name ambient)

def indexable : Schema → Except TypeError Unit
  | .string | .array _ | .unknown => .ok ()
  | s => .error (.notIndexable s.kind)

/-- A slice has the schema of an array of bounds, and what it cuts out is like the whole. -/
def index (object place : Schema) : Except TypeError Schema :=
  match place with
  | .array _ => .ok object
  | .number =>
    match object with
    | .array item => .ok item
    | other => .ok other
  | .unknown => .ok .unknown
  | _ => .error (.badIndex place.kind)

def slice (first last : Schema) : Except TypeError Schema :=
  if ¬isNumeric first then .error (.badBound first.kind)
  else if ¬isNumeric last then .error (.badBound last.kind)
  else .ok (.array .number)

def unary (op : UnaryOp) (operand : Schema) : Except TypeError Schema :=
  match op with
  | .not => .ok .boolean
  | .plus | .minus =>
    if isNumeric operand then .ok .number else .error (.notNumber operand.kind)

/-- The schema of two arrays joined. An array of unknown items takes the schema of the other. -/
def join (left right : Schema) : Except TypeError Schema :=
  if right.kind = .unknown ∨ left.kind = right.kind then .ok (.array left)
  else if left.kind = .unknown then .ok (.array right)
  else .error (.itemMismatch left.kind right.kind)

def calculation (left right : Schema) : Except TypeError Schema :=
  match left, right with
  | .unknown, _ | _, .unknown => .ok .unknown
  | .number, .number => .ok .number
  | _, _ => .error (.incompatible left.kind right.kind)

/-- A sum with a string is a string, and a sum of arrays is an array. -/
def sum (left right : Schema) : Except TypeError Schema :=
  match left, right with
  | .string, _ | _, .string => .ok .string
  | .array l, .array r => join l r
  | _, _ => calculation left right

/-- Comparisons, logic, membership and tests of text all give a boolean, and only inequalities ask
anything of their operands. -/
def binary (op : BinaryOp) (left right : Schema) : Except TypeError Schema :=
  match op with
  | .arithmetic .add => sum left right
  | .arithmetic _ => calculation left right
  | .inequality _ =>
    if isNumeric left ∧ isNumeric right then .ok .boolean
    else .error (.incomparable left.kind right.kind)
  | _ => .ok .boolean

/-- A filter keeps the schema of the array, and its condition is checked against an item. -/
def filter (items : Schema) (span : Span)
    (condition : Schema → Except (Located TypeError) Schema) :
    Except (Located TypeError) Schema := do
  let item ← span.locate <| match items with
    | .array item => .ok item
    | .unknown => .ok .unknown
    | _ => .error (.notFilterable items.kind)
  let _ ← condition item
  return items

def interpretation (o : Options) : Interpretation TypeError Schema where
  literal := literal
  identifier := identifier o
  indexable := indexable
  index := index
  slice := slice
  unary := unary
  binary := binary
  filter := filter

def check (o : Options) (e : Expr) (input : Schema) : Except (Located TypeError) Schema :=
  (interpretation o).meaning e input

end JsonQuery.Typing
