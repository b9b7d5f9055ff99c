import JsonQuery.Operator
import JsonQuery.Token.Kind
import JsonQuery.Token.Scan

/-! What reading expressions rests on: the ways in which tokens fail to form one, and binding
powers. A token continues an operand when it binds more tightly than what the operand was read for;
a token of power zero never does. -/
namespace JsonQuery

inductive ParseError where
  | tooComplex
  | incomplete
  | invalidNumber (text : String)
  | unexpected (kind : TokenKind)
  | unexpectedToken (kind : TokenKind) (text : String)
  | missingOperand
  | unknownOperator (text : String)
  | expected (wanted found : TokenKind)
deriving DecidableEq

/-- Reading an expression fails at a token, or for want of one. -/
inductive ReadError where
  | lexical (e : LexError)
  | grammatical (e : ParseError)
deriving DecidableEq

namespace ParseError

def message : ParseError → String
  | .tooComplex => "expression too complex"
  | .incomplete => "incomplete expression, EOF found"
  | .invalidNumber text => "invalid number `" ++ text ++ "`"
  | .unexpected kind => "unexpected " ++ kind.name
  | .unexpectedToken kind text => "unexpected " ++ kind.name ++ " `" ++ text ++ "`"
  | .missingOperand => "missing right operand"
  | .unknownOperator text => "unknown operator `" ++ text ++ "`, use `not` for negation"
  | .expected wanted found => "expected " ++ wanted.name ++ " but found " ++ found.name

def atSpan (e : ParseError) (span : Span) : Located ReadError := ⟨.grammatical e, span⟩

end ParseError

def ReadError.report (e : Located ReadError) : Report :=
  match e.cause with
  | .lexical cause => LexError.report ⟨cause, e.span⟩
  | .grammatical cause => ⟨.parse, cause.message, e.span⟩

def TokenKind.bindingPower : TokenKind → Nat
  | .or | .filter => 1
  | .and => 2
  | .stringCompare => 3
  | .comparison | .slice => 5
  | .addSub => 10
  | .mulDiv => 15
  | .dot => 40
  | .power => 50
  | .leftBracket => 60
  | .leftParen => 70
  | _ => 0

/-- How tightly a token has to bind to continue the right operand. All operators group to the left
except the power. -/
def BinaryOp.threshold : BinaryOp → Nat
  | .arithmetic .add | .arithmetic .subtract => 10
  | .arithmetic .multiply | .arithmetic .divide | .arithmetic .remainder => 15
  | .arithmetic .power => 49
  | .equal | .notEqual | .inequality _ => 5
  | .and => 2
  | .or => 1
  | .isIn | .contains | .startsWith | .endsWith | .before | .after => 3

/-- How tightly a token has to bind to continue the operand of a sign or a negation. A sign takes
products with it, and a negation takes fields and what binds more tightly. -/
def UnaryOp.threshold : UnaryOp → Nat
  | .plus | .minus => 10
  | .not => 39

end JsonQuery
