import JsonQuery.Calendar.Read
import JsonQuery.Evaluation.Error
import JsonQuery.Number.Binary
import JsonQuery.Operator
import JsonQuery.Text.Basic
import JsonQuery.Value.Basic
import JsonQuery.Value.Text

/-! What operators make of values. Only sums and tests take operands of several kinds; all else
wants numbers. -/
namespace JsonQuery.Evaluation

def number (v : Value) : Except RuntimeError Float :=
  match v.number? with
  | some n => .ok n
  | none => .error (.notNumber v.kind)

def unary (op : UnaryOp) (operand : Value) : Except RuntimeError Value :=
  match op with
  | .not => .ok (.boolean !operand.isTruthy)
  | .plus => (number operand).map .number
  | .minus => (number operand).map fun n => .number (-n)

/-- The result of two numbers. The remainder is one of whole parts. -/
def calculate (op : Arithmetic) (x y : Float) : Except RuntimeError Float :=
  match op with
  | .add => .ok (x + y)
  | .subtract => .ok (x - y)
  | .multiply => .ok (x * y)
  | .divide => if y == 0 then .error .divisionByZero else .ok (x / y)
  | .remainder =>
    match Number.remainder? x y with
    | some r => .ok r
    | none => .error .divisionByZero
  | .power => .ok (x.pow y)

def calculation (op : Arithmetic) (left right : Value) : Except RuntimeError Value :=
  match left, right with
  | .number x, .number y => (calculate op x y).map .number
  | _, _ => .error (.incompatible left.kind right.kind)

/-- A sum with a string joins texts, and a sum of arrays joins items. -/
def sum (left right : Value) : Except RuntimeError Value :=
  match left, right with
  | .string _, _ | _, .string _ => .ok (.string (left.asString ++ right.asString))
  | .array xs, .array ys => .ok (.array (xs ++ ys))
  | _, _ => calculation .add left right

def satisfies (op : Inequality) (x y : Float) : Bool :=
  match op with
  | .less => decide (x < y)
  | .lessEqual => decide (x ≤ y)
  | .greater => decide (y < x)
  | .greaterEqual => decide (y ≤ x)

/-- Whether a value is an item of an array, a key of an object or a part of a text. -/
def contains (container part : Value) : Bool :=
  match container with
  | .array items => items.any (·.equal part)
  | .object fields => (Fields.get? part.asString fields).isSome
  | other => Text.contains other.asString.toList part.asString.toList

def instant (v : Value) : Except RuntimeError Instant :=
  let text := Text.trim v.asString.toList
  match Instant.ofText? text with
  | some i => .ok i
  | none => .error (.notInstant (String.ofList text))

/-- The result of an operator. Logic looks at both operands, which have been evaluated before. -/
def binary (op : BinaryOp) (left right : Value) : Except RuntimeError Value :=
  match op with
  | .arithmetic .add => sum left right
  | .arithmetic op => calculation op left right
  | .equal => .ok (.boolean (left.equal right))
  | .notEqual => .ok (.boolean !left.equal right)
  | .inequality op => do
    let x ← number left
    let y ← number right
    return .boolean (satisfies op x y)
  | .and => .ok (.boolean (left.isTruthy && right.isTruthy))
  | .or => .ok (.boolean (left.isTruthy || right.isTruthy))
  | .isIn => .ok (.boolean (contains right left))
  | .contains => .ok (.boolean (contains left right))
  | .startsWith =>
    .ok (.boolean (Text.startsWith left.asString.toList right.asString.toList))
  | .endsWith => .ok (.boolean (Text.endsWith left.asString.toList right.asString.toList))
  | .before => do
    let a ← instant left
    let b ← instant right
    return .boolean (a.isBefore b)
  | .after => do
    let a ← instant left
    let b ← instant right
    return .boolean (b.isBefore a)

end JsonQuery.Evaluation
