import JsonQuery.Expr.Basic

/-! The nodes of an expression as a table. A node stands after its subexpressions, so the order is
the one in which nodes are completed while reading, and the last row is the whole expression. -/
namespace JsonQuery

inductive Label where
  | literal (value : Literal)
  | identifier (name : String)
  | field
  | index
  | slice
  | unary (op : UnaryOp)
  | binary (op : BinaryOp)
  | filter

def Expr.label : Expr → Label
  | literal v _ => .literal v
  | identifier n _ => .identifier n
  | field _ _ _ => .field
  | index _ _ _ => .index
  | slice _ _ _ => .slice
  | unary op _ _ => .unary op
  | binary op _ _ _ => .binary op
  | filter _ _ _ => .filter

/-- A row of the table. Subexpressions are given by their row numbers. -/
structure Row where
  label : Label
  children : List Nat
  span : Span

namespace Expr

/-- The rows of an expression, in a table that already has a number of rows. -/
def rowsFrom (start : Nat) (e : Expr) : List Row :=
  match e with
  | literal _ _ | identifier _ _ => [⟨e.label, [], e.span⟩]
  | unary _ a _ =>
    rowsFrom start a ++ [⟨e.label, [start + a.size - 1], e.span⟩]
  | field a b _ | index a b _ | slice a b _ | binary _ a b _ | filter a b _ =>
    rowsFrom start a ++ rowsFrom (start + a.size) b ++
      [⟨e.label, [start + a.size - 1, start + a.size + b.size - 1], e.span⟩]

def rows (e : Expr) : List Row := e.rowsFrom 0

theorem size_pos (e : Expr) : 0 < e.size := by cases e <;> simp [size]

theorem length_rowsFrom (e : Expr) (start : Nat) : (e.rowsFrom start).length = e.size := by
  induction e generalizing start <;> simp_all [rowsFrom, size, Nat.add_assoc]

end Expr
end JsonQuery
