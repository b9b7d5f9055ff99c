import JsonQuery.Operator
import JsonQuery.Text.Basic

/-! Compiled expressions. Every node keeps the part of the source that names it, which for an
operation is its operator. -/
namespace JsonQuery

inductive Literal where
  | number (n : Float)
  | string (s : String)

inductive Expr where
  | literal (value : Literal) (span : Span)
  | identifier (name : String) (span : Span)
  | field (object member : Expr) (span : Span)
  | index (object place : Expr) (span : Span)
  | slice (first last : Expr) (span : Span)
  | unary (op : UnaryOp) (operand : Expr) (span : Span)
  | binary (op : BinaryOp) (left right : Expr) (span : Span)
  | filter (items condition : Expr) (span : Span)

namespace Expr

def span : Expr → Span
  | literal _ s | identifier _ s | field _ _ s | index _ _ s | slice _ _ s | unary _ _ s
  | binary _ _ _ s | filter _ _ s => s

def children : Expr → List Expr
  | literal _ _ | identifier _ _ => []
  | unary _ e _ => [e]
  | field a b _ | index a b _ | slice a b _ | binary _ a b _ | filter a b _ => [a, b]

def size : Expr → Nat
  | literal _ _ | identifier _ _ => 1
  | unary _ e _ => e.size + 1
  | field a b _ | index a b _ | slice a b _ | binary _ a b _ | filter a b _ => a.size + b.size + 1

/-- The number of nodes on the longest way down. -/
def depth : Expr → Nat
  | literal _ _ | identifier _ _ => 1
  | unary _ e _ => e.depth + 1
  | field a b _ | index a b _ | slice a b _ | binary _ a b _ | filter a b _ =>
    max a.depth b.depth + 1

end Expr
end JsonQuery
