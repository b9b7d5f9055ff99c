import JsonQuery.Expr.Basic

/-! One way through an expression for all purposes. An interpretation says what each node gives, and
the meaning of an expression follows: which subexpressions are visited, in which order and with
which ambient item. Checking and evaluating are two interpretations, to be compared operation by
operation, and they share their settings. -/
namespace JsonQuery

/-- What nodes give. The failures of an operation get the span of its node. A filter applies its
condition itself, and the failures of the condition have their places already. -/
structure Interpretation (ε α : Type) where
  literal : Literal → α
  identifier : String → α → Except ε α
  indexable : α → Except ε Unit
  index : α → α → Except ε α
  slice : α → α → Except ε α
  unary : UnaryOp → α → Except ε α
  binary : BinaryOp → α → α → Except ε α
  filter : α → Span → (α → Except (Located ε) α) → Except (Located ε) α

/-- Visits an expression with the item that its names refer to. The first failure ends the visit. -/
def Interpretation.meaning {ε α : Type} (i : Interpretation ε α) : Expr → α → Except (Located ε) α
  | .literal value _, _ => .ok (i.literal value)
  | .identifier name span, ambient => span.locate (i.identifier name ambient)
  | .field object member _, ambient => do
    let object ← i.meaning object ambient
    i.meaning member object
  | .index object place span, ambient => do
    let object ← i.meaning object ambient
    span.locate (i.indexable object)
    let place ← i.meaning place ambient
    span.locate (i.index object place)
  | .slice first last span, ambient => do
    let first ← i.meaning first ambient
    let last ← i.meaning last ambient
    span.locate (i.slice first last)
  | .unary op operand span, ambient => do
    let operand ← i.meaning operand ambient
    span.locate (i.unary op operand)
  | .binary op left right span, ambient => do
    let left ← i.meaning left ambient
    let right ← i.meaning right ambient
    span.locate (i.binary op left right)
  | .filter items condition span, ambient => do
    let items ← i.meaning items ambient
    i.filter items span (i.meaning condition)

structure Options where
  /-- A missing property is an error, and so is a filter condition that fails on an item. -/
  strict : Bool
  /-- A name that nothing gives a value to stands for itself as a string. -/
  unquoted : Bool

/-- Strictness wins over unquoted names. -/
def Options.fallsBackToName (o : Options) : Bool := o.unquoted && !o.strict

end JsonQuery
