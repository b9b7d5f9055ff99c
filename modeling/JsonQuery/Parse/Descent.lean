import JsonQuery.Expr.Listing
import JsonQuery.Number.Read
import JsonQuery.Parse.Basic

/-! Reading an expression by descent into its operands, with tokens taken from the source one at a
time and nodes put into a table. An operand is what a token starts, continued by every token that
binds more tightly than what the operand is read for. The descent is as deep as operands are nested,
and a budget bounds it where the cap does not. -/
namespace JsonQuery.Parse

structure Table where
  rows : Array Row
  depths : Array Nat

namespace Table

def empty : Table := ⟨#[], #[]⟩

def depthAt (t : Table) (row : Nat) : Nat := t.depths[row]?.getD 0

def depthOver (t : Table) (children : List Nat) : Nat :=
  (children.map t.depthAt).foldr max 0 + 1

/-- Adds a node, which is refused when it would be deeper than the cap. Row numbers have no bound
here. They fit into 32 bits as long as a table has no more than 2^32 rows. -/
def push (cap : Nat) (r : Row) (t : Table) : Except (Located ReadError) Table :=
  if cap < t.depthOver r.children then .error (ParseError.tooComplex.atSpan r.span)
  else .ok ⟨t.rows.push r, t.depths.push (t.depthOver r.children)⟩

end Table
end JsonQuery.Parse

namespace JsonQuery

/-- The classes of tokens after which a right operand is due. -/
def TokenKind.isOperator : TokenKind → Bool
  | .addSub | .mulDiv | .power | .comparison | .and | .or | .not | .stringCompare | .filter | .dot
  | .slice => true
  | _ => false

namespace Parse

/-- What the reader knows: one token ahead, the class of the token before that, the nodes so far,
and the number of operands that it is inside of. -/
structure Reader where
  cursor : Cursor
  current : Token
  previous : Option TokenKind
  table : Table
  nesting : Nat

/-- A reading ends early with a failure, or because the budget is used up. -/
inductive Stop where
  | failed (e : Located ReadError)
  | exhausted

/-- The steps of a descent: to look at the reader, to end early, to move on by one token and give
the one that was current, to add a node and give its row, and to read an operand inside of all
others. -/
class Descent (m : Type → Type) extends Monad m where
  look : m Reader
  stop {α : Type} (why : Stop) : m α
  advance : m Token
  push (cap : Nat) (label : Label) (children : List Nat) (span : Span) : m Nat
  enter {α : Type} (operand : m α) : m α

namespace Descent

variable {m : Type → Type} [Descent m]

def fail {α : Type} (e : ParseError) (span : Span) : m α := stop (.failed (e.atSpan span))

def expect (kind : TokenKind) : m Unit := do
  let t := (← look).current
  if t.kind = kind then
    let _ ← advance
    return
  else fail (.expected kind t.kind) t.span

/-- A slice after its colon. A last bound that is left out before a closing bracket is the last
place. -/
def bounds (cap : Nat) (operand : Nat → m Nat) (first : Nat) (span : Span) : m Nat := do
  let t := (← look).current
  let last ←
    if t.kind = .rightBracket then
      push cap (.literal (.number (Number.ofInt (-1)))) [] ⟨t.span.offset, 0⟩
    else operand TokenKind.slice.bindingPower
  push cap .slice [first, last] span

/-- What a token starts, given the class of the token before it and a way to read an operand that
binds above a power. -/
def leading (cap : Nat) (operand : Nat → m Nat) (t : Token) (preceding : Option TokenKind) :
    m Nat :=
  match t.kind with
  | .identifier => push cap (.identifier t.text) [] t.span
  | .string => push cap (.literal (.string t.text)) [] t.span
  | .number =>
    match Number.ofLiteral? t.text.toList with
    | some n => push cap (.literal (.number n)) [] t.span
    | none => fail (.invalidNumber t.text) t.span
  | .leftParen => do
    let inner ← operand 0
    expect .rightParen
    return inner
  | .not => do
    let negated ← operand UnaryOp.not.threshold
    push cap (.unary .not) [negated] t.span
  | .addSub => do
    let op := if t.text = "-" then UnaryOp.minus else UnaryOp.plus
    let signed ← operand TokenKind.addSub.bindingPower
    push cap (.unary op) [signed] t.span
  | .slice => do
    let first ← push cap (.literal (.number (Number.ofNat 0))) [] t.span
    bounds cap operand first t.span
  | .eof => fail .incomplete t.span
  | .rightParen | .leftBracket | .rightBracket => fail (.unexpected t.kind) t.span
  | _ =>
    if preceding.any TokenKind.isOperator then fail .missingOperand t.span
    else fail (.unexpectedToken t.kind t.text) t.span

/-- What a token makes of the operand before it. The power groups to the right, and a condition
takes everything after it. -/
def following (cap : Nat) (operand : Nat → m Nat) (t : Token) (left : Nat) : m Nat :=
  match t.kind with
  | .addSub | .mulDiv | .comparison | .and | .or | .stringCompare =>
    match BinaryOp.ofSymbol? t.text with
    | some op => do
      let right ← operand t.kind.bindingPower
      push cap (.binary op) [left, right] t.span
    | none => fail (.unknownOperator t.text) t.span
  | .power => do
    let right ← operand (TokenKind.power.bindingPower - 1)
    push cap (.binary (.arithmetic .power)) [left, right] t.span
  | .dot => do
    let member ← operand TokenKind.dot.bindingPower
    push cap .field [left, member] t.span
  | .leftBracket => do
    let place ← operand 0
    expect .rightBracket
    push cap .index [left, place] t.span
  | .slice => bounds cap operand left t.span
  | .filter => do
    let condition ← operand (TokenKind.filter.bindingPower - 1)
    push cap .filter [left, condition] t.span
  | _ => fail (.unexpected t.kind) t.span

def continued (cap : Nat) (operand : Nat → m Nat) (power : Nat) : Nat → Nat → m Nat
  | 0, _ => stop .exhausted
  | steps + 1, left => do
    if power < (← look).current.kind.bindingPower then
      let t ← advance
      let left ← following cap operand t left
      continued cap operand power steps left
    else return left

/-- Reads an operand that binds above a power, with a budget for the depth of the descent and for
the number of tokens that continue an operand. -/
def expression (cap : Nat) : Nat → Nat → m Nat
  | 0, _ => enter (stop .exhausted)
  | budget + 1, power => enter do
    let r ← look
    if cap < r.nesting then fail .tooComplex r.current.span
    else
      let t ← advance
      let first ← leading cap (expression cap budget) t r.previous
      continued cap (expression cap budget) power (budget + 1) first

def whole (cap budget : Nat) : m Nat := do
  let root ← expression cap budget 0
  let t := (← look).current
  if t.kind = .eof then return root
  else fail (.expected .eof t.kind) t.span

end Descent

/-- Steps of the reader, which leave it somewhere even when they end early. -/
abbrev Reading := ExceptT Stop (StateM Reader)

namespace Reading

def advance : Reading Token := do
  let r ← get
  match r.cursor.next with
  | (.error e, _) => throw (.failed (e.map .lexical))
  | (.ok t, cursor) =>
    set { r with cursor := cursor, current := t, previous := some r.current.kind }
    return r.current

def push (cap : Nat) (label : Label) (children : List Nat) (span : Span) : Reading Nat := do
  let r ← get
  match r.table.push cap ⟨label, children, span⟩ with
  | .error e => throw (.failed e)
  | .ok table =>
    set { r with table := table }
    return r.table.rows.size

/-- An operand that cannot be read leaves the reader inside of it. -/
def enter {α : Type} (operand : Reading α) : Reading α := do
  modify fun r => { r with nesting := r.nesting + 1 }
  let a ← operand
  modify fun r => { r with nesting := r.nesting - 1 }
  return a

instance : Descent Reading where
  look := get
  stop := throw
  advance := advance
  push := push
  enter := enter

end Reading

def Reader.start (source : String) : Except (Located LexError) Reader :=
  match (Cursor.start source).next with
  | (.error e, _) => .error e
  | (.ok t, cursor) => .ok ⟨cursor, t, none, .empty, 0⟩

end Parse

/-- A compiled expression: the rows of its nodes, and the row of the whole. -/
structure Arena where
  rows : Array Row
  root : Nat

namespace Arena

/-- Reads a source into a table. Gives the outcome, and the table as far as it came. No source has
more tokens than characters, and each operand takes a token from the budget. -/
def read (source : String) (cap : Nat) : Except Parse.Stop Arena × Parse.Table :=
  match Parse.Reader.start source with
  | .error e => (.error (.failed (e.map .lexical)), .empty)
  | .ok r =>
    match (Parse.Descent.whole cap (source.length + 1) : Parse.Reading Nat).run.run r with
    | (.ok root, r) => (.ok ⟨r.table.rows, root⟩, r.table)
    | (.error stop, r) => (.error stop, r.table)

def parse (source : String) (cap : Nat) : Except Parse.Stop Arena := (read source cap).1

end Arena
end JsonQuery
