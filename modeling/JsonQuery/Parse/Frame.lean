import JsonQuery.Expr.Basic
import JsonQuery.Parse.Basic

/-! What an operand is read for. While an expression is read, the constructs that still wait for
an operand form a stack, and each says what becomes of its operand. -/
namespace JsonQuery.Parse

structure Operand where
  expr : Expr
  depth : Nat

/-- Constructs that run up to a closing token, whatever binds in between. -/
inductive Enclosure where
  | group
  | brackets (object : Operand) (span : Span)

/-- Constructs that end where a token does not bind tightly enough. -/
inductive Pending where
  | unary (op : UnaryOp) (span : Span)
  | bound (first : Operand) (span : Span)
  | right (op : BinaryOp) (left : Operand) (span : Span)
  | member (object : Operand) (span : Span)
  | condition (items : Operand) (span : Span)

inductive Frame where
  | enclosing (e : Enclosure)
  | pending (p : Pending)

namespace Operand

def leaf (e : Expr) : Operand := ⟨e, 1⟩

def number (n : Float) (span : Span) : Operand := leaf (.literal (.number n) span)

/-- A node of a given depth, which is refused above the cap. -/
def node (cap : Nat) (e : Expr) (depth : Nat) : Except (Located ReadError) Operand :=
  if cap < depth then .error (ParseError.tooComplex.atSpan e.span) else .ok ⟨e, depth⟩

def pair (cap : Nat) (build : Expr → Expr → Span → Expr) (a b : Operand) (span : Span) :
    Except (Located ReadError) Operand :=
  node cap (build a.expr b.expr span) (max a.depth b.depth + 1)

end Operand

namespace Enclosure

def closer : Enclosure → TokenKind
  | .group => .rightParen
  | .brackets _ _ => .rightBracket

def close (cap : Nat) (held : Operand) : Enclosure → Except (Located ReadError) Operand
  | .group => .ok held
  | .brackets object span => Operand.pair cap .index object held span

end Enclosure

namespace Pending

/-- A token binds into the operand when its power is above the threshold. -/
def threshold : Pending → Nat
  | .unary op _ => op.threshold
  | .bound _ _ => TokenKind.slice.bindingPower
  | .right op _ _ => op.threshold
  | .member _ _ => TokenKind.dot.bindingPower
  | .condition _ _ => 0

def complete (cap : Nat) (held : Operand) : Pending → Except (Located ReadError) Operand
  | .unary op span => Operand.node cap (.unary op held.expr span) (held.depth + 1)
  | .bound first span => Operand.pair cap .slice first held span
  | .right op left span => Operand.pair cap (.binary op) left held span
  | .member object span => Operand.pair cap .field object held span
  | .condition items span => Operand.pair cap .filter items held span

end Pending
end JsonQuery.Parse
