/-! The operators of expressions, grouped by what they ask of their operands, and how tightly they
bind. -/
namespace JsonQuery

/-- Operators on two numbers. Addition also joins strings and arrays. -/
inductive Arithmetic where
  | add
  | subtract
  | multiply
  | divide
  | remainder
  | power
deriving DecidableEq

inductive Inequality where
  | less
  | lessEqual
  | greater
  | greaterEqual
deriving DecidableEq

inductive BinaryOp where
  | arithmetic (op : Arithmetic)
  | equal
  | notEqual
  | inequality (op : Inequality)
  | and
  | or
  | isIn
  | contains
  | startsWith
  | endsWith
  | before
  | after
deriving DecidableEq

inductive UnaryOp where
  | plus
  | minus
  | not
deriving DecidableEq

namespace BinaryOp

def symbol : BinaryOp → String
  | .arithmetic .add => "+"
  | .arithmetic .subtract => "-"
  | .arithmetic .multiply => "*"
  | .arithmetic .divide => "/"
  | .arithmetic .remainder => "%"
  | .arithmetic .power => "^"
  | .equal => "=="
  | .notEqual => "!="
  | .inequality .less => "<"
  | .inequality .lessEqual => "<="
  | .inequality .greater => ">"
  | .inequality .greaterEqual => ">="
  | .and => "and"
  | .or => "or"
  | .isIn => "in"
  | .contains => "contains"
  | .startsWith => "startsWith"
  | .endsWith => "endsWith"
  | .before => "before"
  | .after => "after"

def ofSymbol? : String → Option BinaryOp
  | "+" => some (.arithmetic .add)
  | "-" => some (.arithmetic .subtract)
  | "*" => some (.arithmetic .multiply)
  | "/" => some (.arithmetic .divide)
  | "%" => some (.arithmetic .remainder)
  | "^" => some (.arithmetic .power)
  | "==" => some .equal
  | "!=" => some .notEqual
  | "<" => some (.inequality .less)
  | "<=" => some (.inequality .lessEqual)
  | ">" => some (.inequality .greater)
  | ">=" => some (.inequality .greaterEqual)
  | "and" => some .and
  | "or" => some .or
  | "in" => some .isIn
  | "contains" => some .contains
  | "startsWith" => some .startsWith
  | "endsWith" => some .endsWith
  | "before" => some .before
  | "after" => some .after
  | _ => none

theorem ofSymbol?_symbol (op : BinaryOp) : ofSymbol? op.symbol = some op := by
  cases op with
  | arithmetic op => cases op <;> rfl
  | inequality op => cases op <;> rfl
  | _ => rfl

def isArithmetic : BinaryOp → Bool
  | .arithmetic _ => true
  | _ => false

def isInequality : BinaryOp → Bool
  | .inequality _ => true
  | _ => false

end BinaryOp

def UnaryOp.symbol : UnaryOp → String
  | .plus => "+"
  | .minus => "-"
  | .not => "not"

end JsonQuery
