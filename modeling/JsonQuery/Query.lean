import JsonQuery.Evaluation.Run
import JsonQuery.Parse.Machine
import JsonQuery.Typing.Check

/-! Expressions from source text to result. An expression is read once and can then be checked
against any number of examples and run on any number of inputs. -/
namespace JsonQuery

inductive Failure where
  | read (e : Located ReadError)
  | type (e : Located TypeError)
  | runtime (e : Located RuntimeError)

def Failure.report : Failure → Report
  | .read e => ReadError.report e
  | .type e => TypeError.report e
  | .runtime e => RuntimeError.report e

namespace Query

def compile (source : String) : Except Failure Expr :=
  (Expr.parse source Parse.defaultCap).mapError .read

def check (o : Options) (e : Expr) (sample : Value) : Except Failure Schema :=
  (Typing.check o e (.ofValue sample)).mapError .type

def run (o : Options) (e : Expr) (input : Value) : Except Failure Value :=
  (Evaluation.run o e input).mapError .runtime

/-- Reads an expression and, if there is an example, checks it. -/
def compileFor (o : Options) (source : String) (sample : Option Value) : Except Failure Expr := do
  let e ← compile source
  match sample with
  | some v => let _ ← check o e v
  | none => pure ()
  return e

/-- Reads an expression, checks it against an example if there is one, and runs it. -/
def eval (o : Options) (source : String) (sample : Option Value) (input : Value) :
    Except Failure Value := do
  run o (← compileFor o source sample) input

/-- Runs expressions one after the other, each on the result of the one before. A failure leaves the
value as it was. Gives the outcome of every step and the last value. -/
def pipeline (o : Options) : List String → Value → List (Except Failure Value) × Value
  | [], input => ([], input)
  | source :: sources, input =>
    let outcome := eval o source none input
    let next := match outcome with
      | .ok v => v
      | .error _ => input
    let (outcomes, last) := pipeline o sources next
    (outcome :: outcomes, last)

end Query
end JsonQuery
