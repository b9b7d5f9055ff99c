import JsonQuery.Number.Read
import JsonQuery.Parse.Frame

/-! Reading an expression from tokens. The reader alternates between two states, before an operand
and after one, and every step takes one token. The constructs that are still open are kept on a
stack; a token first completes those that it does not bind into, and is then taken. -/
namespace JsonQuery.Parse

inductive State where
  | operand (frames : List Frame)
  | operator (frames : List Frame) (held : Operand)

inductive Action where
  | start (frames : List Frame)
  | extend (frames : List Frame) (held : Operand)
  | close (e : Enclosure) (frames : List Frame) (held : Operand)

/-- Completes the constructs that a token of a given power does not bind into. -/
def settle (cap power : Nat) :
    List Frame → Operand → Except (Located ReadError) (List Frame × Operand)
  | .pending p :: frames, held =>
    if p.threshold < power then .ok (.pending p :: frames, held)
    else do settle cap power frames (← p.complete cap held)
  | frames, held => .ok (frames, held)

/-- What a token does after an operand. A token that does not bind has to close the innermost
construct. -/
def approachOperator (cap : Nat) (t : Token) (frames : List Frame) (held : Operand) :
    Except (Located ReadError) Action := do
  let (frames, held) ← settle cap t.kind.bindingPower frames held
  if 0 < t.kind.bindingPower then .ok (.extend frames held)
  else match frames with
    | .enclosing e :: frames =>
      if t.kind = e.closer then .ok (.close e frames held)
      else .error ((ParseError.expected e.closer t.kind).atSpan t.span)
    | _ => .error ((ParseError.expected .eof t.kind).atSpan t.span)

/-- What a token does before it is taken. An end bound may be left out before a closing bracket and
is then the last place. All other operands count against the cap together with the constructs
around them. -/
def approach (cap : Nat) (t : Token) : State → Except (Located ReadError) Action
  | .operator frames held => approachOperator cap t frames held
  | .operand frames =>
    match frames, t.kind with
    | .pending (.bound first span) :: frames, .rightBracket => do
      let last := Operand.number (Number.ofInt (-1)) ⟨t.span.offset, 0⟩
      approachOperator cap t frames (← (Pending.bound first span).complete cap last)
    | frames, _ =>
      if cap ≤ frames.length then .error (ParseError.tooComplex.atSpan t.span)
      else .ok (.start frames)

/-- Takes a token at the start of an operand. A missing operand is laid to the operator before it,
if there is one. -/
def takeStart (t : Token) (frames : List Frame) : Except (Located ReadError) State :=
  match t.kind with
  | .identifier => .ok (.operator frames (.leaf (.identifier t.text t.span)))
  | .string => .ok (.operator frames (.leaf (.literal (.string t.text) t.span)))
  | .number =>
    match Number.ofLiteral? t.text.toList with
    | some n => .ok (.operator frames (.number n t.span))
    | none => .error ((ParseError.invalidNumber t.text).atSpan t.span)
  | .leftParen => .ok (.operand (.enclosing .group :: frames))
  | .not => .ok (.operand (.pending (.unary .not t.span) :: frames))
  | .addSub =>
    let op := if t.text = "-" then UnaryOp.minus else UnaryOp.plus
    .ok (.operand (.pending (.unary op t.span) :: frames))
  | .slice => .ok (.operand (.pending (.bound (.number (Number.ofNat 0) t.span) t.span) :: frames))
  | .eof => .error (ParseError.incomplete.atSpan t.span)
  | .rightParen | .leftBracket | .rightBracket =>
    .error ((ParseError.unexpected t.kind).atSpan t.span)
  | _ =>
    match frames with
    | .pending _ :: _ => .error (ParseError.missingOperand.atSpan t.span)
    | _ => .error ((ParseError.unexpectedToken t.kind t.text).atSpan t.span)

def takeExtend (t : Token) (frames : List Frame) (held : Operand) :
    Except (Located ReadError) State :=
  match t.kind with
  | .dot => .ok (.operand (.pending (.member held t.span) :: frames))
  | .leftBracket => .ok (.operand (.enclosing (.brackets held t.span) :: frames))
  | .slice => .ok (.operand (.pending (.bound held t.span) :: frames))
  | .filter => .ok (.operand (.pending (.condition held t.span) :: frames))
  | .leftParen => .error ((ParseError.unexpected t.kind).atSpan t.span)
  | _ =>
    match BinaryOp.ofSymbol? t.text with
    | some op => .ok (.operand (.pending (.right op held t.span) :: frames))
    | none => .error ((ParseError.unknownOperator t.text).atSpan t.span)

def take (cap : Nat) (t : Token) : Action → Except (Located ReadError) State
  | .start frames => takeStart t frames
  | .extend frames held => takeExtend t frames held
  | .close e frames held => do return .operator frames (← e.close cap held)

/-- Ends an expression. No construct may be left that waits for a closing token or an operand. -/
def finish (cap : Nat) (t : Token) : State → Except (Located ReadError) Expr
  | .operand frames =>
    if cap ≤ frames.length then .error (ParseError.tooComplex.atSpan t.span)
    else .error (ParseError.incomplete.atSpan t.span)
  | .operator frames held => do
    let (frames, held) ← settle cap 0 frames held
    match frames with
    | .enclosing e :: _ => .error ((ParseError.expected e.closer t.kind).atSpan t.span)
    | _ => .ok held.expr

def follow (last : Except (Located LexError) Token) :
    List Token → Except (Located ReadError) Unit
  | [] =>
    match last with
    | .error e => .error (e.map .lexical)
    | .ok _ => .ok ()
  | _ :: _ => .ok ()

/-- Reads the remaining tokens. A token is taken only when the one after it can be read, so a
lexical failure there comes before a failure of the token itself. -/
def run (cap : Nat) (last : Except (Located LexError) Token) :
    List Token → State → Except (Located ReadError) Expr
  | [], state =>
    match last with
    | .error e => .error (e.map .lexical)
    | .ok t => finish cap t state
  | t :: rest, state => do
    let action ← approach cap t state
    follow last rest
    run cap last rest (← take cap t action)

/-- The cap on the nesting and the depth of expressions, unless the caller chooses another. A chain
of operators that group to the left is one level deeper for each of them. -/
def defaultCap : Nat := 256

def ofScan (cap : Nat) (scan : Scan) : Except (Located ReadError) Expr :=
  run cap scan.last scan.tokens (.operand [])

end JsonQuery.Parse

namespace JsonQuery.Expr

def parse (source : String) (cap : Nat) : Except (Located ReadError) Expr :=
  Parse.ofScan cap (.of source)

end JsonQuery.Expr
