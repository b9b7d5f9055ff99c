import JsonQuery.Evaluation.Operators
import JsonQuery.Evaluation.Sequence
import JsonQuery.Interpretation
import JsonQuery.Text.Case

/-! The value of an expression on an input. -/
namespace JsonQuery.Evaluation

def literal : Literal → Value
  | .number n => .number n
  | .string s => .string s

/-- The names that strings and arrays answer to. On an object they are ordinary keys. -/
def special? (name : String) (ambient : Value) : Option Value :=
  match ambient with
  | .string s =>
    if name = "length" then some (.number (Number.ofNat s.length))
    else if name = "lower" then some (.string (String.ofList (Text.lower s.toList)))
    else if name = "upper" then some (.string (String.ofList (Text.upper s.toList)))
    else none
  | .array items => if name = "length" then some (.number (Number.ofNat items.length)) else none
  | _ => none

/-- The value that a name has. An object without the key gives null, unless that is an error. -/
def identifier (o : Options) (name : String) (ambient : Value) : Except RuntimeError Value :=
  if name = "@" then .ok ambient
  else match (special? name ambient).or (ambient.get? name) with
    | some v => .ok v
    | none =>
      if o.fallsBackToName then .ok (.string name)
      else match ambient, o.strict with
        | .object _, false => .ok .null
        | _, _ => .error (.missingProperty name ambient.kind)

def indexable (object : Value) : Except RuntimeError Unit :=
  match Sequence.ofValue? object with
  | some _ => .ok ()
  | none => .error (.notIndexable object.kind)

/-- A number gives an element, and an array of two numbers a slice. -/
def index (object place : Value) : Except RuntimeError Value :=
  match Sequence.ofValue? object, place with
  | none, _ => .error (.notIndexable object.kind)
  | some s, .number n => s.elementAt n
  | some s, .array [.number first, .number last] => s.sliceAt first last
  | some _, .array _ => .error .badBounds
  | some _, _ => .error (.badIndex place.kind)

def bound (v : Value) : Except RuntimeError Value :=
  match v.number? with
  | some n => .ok (.number n)
  | none => .error (.badBound v.kind)

/-- A slice by itself is the array of its bounds. -/
def slice (first last : Value) : Except RuntimeError Value := do
  let first ← bound first
  let last ← bound last
  return .array [first, last]

/-- The items for which a condition is true. A condition that fails on an item leaves it out, or
ends a strict run. -/
def select (o : Options) (condition : Value → Except (Located RuntimeError) Value) :
    List Value → Except (Located RuntimeError) (List Value)
  | [] => .ok []
  | item :: items =>
    match condition item with
    | .error e => if o.strict then .error e else select o condition items
    | .ok verdict => do
      let kept ← select o condition items
      return if verdict.isTruthy then item :: kept else kept

def filter (o : Options) (items : Value) (span : Span)
    (condition : Value → Except (Located RuntimeError) Value) :
    Except (Located RuntimeError) Value :=
  match items with
  | .array items => (select o condition items).map .array
  | _ => .error ⟨.notFilterable items.kind, span⟩

def interpretation (o : Options) : Interpretation RuntimeError Value where
  literal := literal
  identifier := identifier o
  indexable := indexable
  index := index
  slice := slice
  unary := unary
  binary := binary
  filter := filter o

def run (o : Options) (e : Expr) (input : Value) : Except (Located RuntimeError) Value :=
  (interpretation o).meaning e input

end JsonQuery.Evaluation
