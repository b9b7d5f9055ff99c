import JsonQuery.CommandLine.Request
import JsonQuery.Json.Read
import JsonQuery.Json.Text
import JsonQuery.Query

/-! The commands, as functions from a request to what is printed. -/
namespace JsonQuery.CommandLine

/-- A command fails by its expression, by the JSON text of one of its options or for want of an
input. -/
inductive CommandError where
  | expression (drawing : String)
  | json (what : String)
  | noInput

def CommandError.message : CommandError → String
  | .expression drawing => drawing
  | .json what => "invalid JSON in " ++ what
  | .noInput => "no input provided, use --input or pipe JSON to stdin"

/-- What a check gives: the answer that the expression is well formed, or its result. -/
inductive CheckAnswer where
  | valid
  | result (j : Json)

def drawn {α : Type} (source : String) (r : Except Failure α) : Except CommandError α :=
  r.mapError fun e => .expression (e.report.render source)

def readJson (what text : String) : Except CommandError Value :=
  match Value.ofJsonText? text with
  | some v => .ok v
  | none => .error (.json what)

/-- Reads the expression, checks it against the example if there is one, and runs it on the input.
The input is looked at last, and not at all when only the form of the expression matters. -/
def check (r : CheckRequest) : Except CommandError CheckAnswer := do
  let e ← drawn r.expression (Query.compile r.expression)
  match r.sample with
  | some text =>
    let sample ← readJson "example" text
    let _ ← drawn r.expression (Query.check r.options e sample)
  | none => pure ()
  if r.syntaxOnly then return .valid
  match r.input with
  | none => throw .noInput
  | some text =>
    let input ← readJson "input" text
    let result ← drawn r.expression (Query.run r.options e input)
    return .result (.ofValue result)

def tokenLines (expression : String) : Except CommandError (List String) :=
  let scan := Scan.of expression
  match scan.last with
  | .ok _ => .ok (scan.tokens.map Token.line)
  | .error e => .error (.expression ((LexError.report e).render expression))

structure Outcome where
  code : Nat
  stdout : String
  stderr : String

/-- Lines on standard output, or a message on standard error and a code that says so. -/
def outcome : Except CommandError (List String) → Outcome
  | .ok lines => ⟨0, String.join (lines.map (· ++ "\n")), ""⟩
  | .error e => ⟨1, "", e.message ++ "\n"⟩

def checkLines (r : CheckRequest) : Except CommandError (List String) :=
  (check r).map fun
    | .valid => ["Syntax is valid"]
    | .result j => [j.text (if r.indented then .indented else .compact)]

def wantsInput : Request → Bool
  | .check r => r.input.isNone && !r.syntaxOnly
  | .tokens _ => false

/-- Carries out a request. Standard input stands in for an input that is not given. -/
def execute (stdin : String) (request : Request) : Outcome :=
  match request with
  | .check r =>
    outcome (checkLines (if wantsInput request then { r with input := some stdin } else r))
  | .tokens expression => outcome (tokenLines expression)

def usage : Outcome :=
  ⟨2, "", "usage: check EXPRESSION [-i|--input JSON] [-e|--example JSON] [--strict] " ++
    "[-u|--unquoted] [-p|--pretty] [--syntax-only]\n       tokens EXPRESSION\n"⟩

def run (arguments : List String) (stdin : String) : Outcome :=
  match request? arguments with
  | some request => execute stdin request
  | none => usage

end JsonQuery.CommandLine
