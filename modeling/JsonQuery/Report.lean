import JsonQuery.Text.Basic

/-! Failures as a user sees them: a message, the layer it comes from, and a drawing that puts a
caret under the place in the source. -/
namespace JsonQuery

/-- What a report is about. A division by zero is a kind of its own, because callers react to it
apart from other failures of a run. -/
inductive Category where
  | lex
  | parse
  | type
  | runtime
  | divisionByZero
deriving DecidableEq

inductive Layer where
  | lex
  | parse
  | type
  | runtime
deriving DecidableEq

def Category.layer : Category → Layer
  | .lex => .lex
  | .parse => .parse
  | .type => .type
  | .runtime | .divisionByZero => .runtime

structure Report where
  category : Category
  message : String
  span : Span

namespace Report

/-- Every division by zero has the same message, whatever the operands. -/
def divisionByZero (span : Span) : Report :=
  ⟨.divisionByZero, "cannot divide by zero", span⟩

def of (category : Category) (message : String) (span : Span) : Report :=
  match category with
  | .divisionByZero => divisionByZero span
  | _ => ⟨category, message, span⟩

/-- The parts of a drawing: the source line that holds the place, the number of characters before
the place on that line, and the number of characters from the place to the end of the span. -/
structure Sketch where
  line : List Char
  column : Nat
  marked : Nat

/-- Finds the line that a span begins on. The beginning is moved back to the last character
boundary of the source, and the end to the end of that line. There is no sketch when the end then
lies inside a character. -/
def sketch? (span : Span) (source : List Char) : Option Sketch :=
  let (before, after) := Text.cutBefore span.offset source
  let lead := (before.reverse.takeWhile (· != '\n')).reverse
  let remainder := after.takeWhile (· != '\n')
  (Text.cut? (min (Text.bytes remainder) span.length) remainder).map fun (marked, _) =>
    ⟨lead ++ remainder, lead.length, marked.length⟩

/-- A caret under the place, followed by a tilde for each further character of the span. -/
def Sketch.underline (s : Sketch) : List Char :=
  List.replicate s.column ' ' ++ '^' :: List.replicate (s.marked - 1) '~'

def render? (r : Report) (source : String) : Option String :=
  (sketch? r.span source.toList).map fun s =>
    r.message ++ "\n" ++ String.ofList s.line ++ "\n" ++ String.ofList s.underline

def render (r : Report) (source : String) : String := (r.render? source).getD r.message

end Report
end JsonQuery
