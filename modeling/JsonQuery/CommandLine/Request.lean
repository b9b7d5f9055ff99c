import JsonQuery.Interpretation

/-! What a command line asks for. Options may stand in any place and may be written with an equals
sign, and after two dashes everything is an argument. -/
namespace JsonQuery.CommandLine

structure CheckRequest where
  expression : String
  input : Option String
  sample : Option String
  options : Options
  /-- Whether the result is written over several lines. -/
  indented : Bool
  /-- Whether to stop before running. -/
  syntaxOnly : Bool

inductive Request where
  | check (r : CheckRequest)
  | tokens (expression : String)

/-- An option, or an argument that is none. -/
inductive Item where
  | input (text : String)
  | sample (text : String)
  | strict
  | unquoted
  | indented
  | syntaxOnly
  | argument (text : String)

/-- The items of options in one letter after one dash. An option with a value takes the remainder
as its value, or else the next argument. -/
def shortItems? : List Char → List String → Option (List Item × List String)
  | [], others => some ([], others)
  | 'u' :: letters, others =>
    (shortItems? letters others).map fun (items, others) => (.unquoted :: items, others)
  | 'p' :: letters, others =>
    (shortItems? letters others).map fun (items, others) => (.indented :: items, others)
  | letter :: value, others => do
    let make ← match letter with
      | 'i' => some Item.input
      | 'e' => some Item.sample
      | _ => none
    match value, others with
    | [], [] => none
    | [], next :: others => some ([make next], others)
    | '=' :: value, others => some ([make (String.ofList value)], others)
    | value, others => some ([make (String.ofList value)], others)

def longItem? (option : List Char) (others : List String) : Option (Item × List String) :=
  let name := String.ofList (option.takeWhile (· != '='))
  match name, option.dropWhile (· != '='), others with
  | "strict", [], _ => some (.strict, others)
  | "unquoted", [], _ => some (.unquoted, others)
  | "pretty", [], _ => some (.indented, others)
  | "syntax-only", [], _ => some (.syntaxOnly, others)
  | "input", [], next :: others => some (.input next, others)
  | "example", [], next :: others => some (.sample next, others)
  | "input", _ :: value, _ => some (.input (String.ofList value), others)
  | "example", _ :: value, _ => some (.sample (String.ofList value), others)
  | _, _, _ => none

def items? (count : Nat) (arguments : List String) : Option (List Item) :=
  match count, arguments with
  | _, [] => some []
  | 0, _ => none
  | count + 1, first :: others =>
    match first.toList with
    | ['-', '-'] => some (others.map .argument)
    | '-' :: '-' :: option => do
      let (item, others) ← longItem? option others
      return item :: (← items? count others)
    | '-' :: letter :: letters => do
      let (found, others) ← shortItems? (letter :: letters) others
      return found ++ (← items? count others)
    | _ => do return .argument first :: (← items? count others)

/-- The request after one more item. An expression is given only once. -/
def CheckRequest.add? (r : CheckRequest) (given : Bool) : Item → Option (CheckRequest × Bool)
  | .input text => some ({ r with input := some text }, given)
  | .sample text => some ({ r with sample := some text }, given)
  | .strict => some ({ r with options := { r.options with strict := true } }, given)
  | .unquoted => some ({ r with options := { r.options with unquoted := true } }, given)
  | .indented => some ({ r with indented := true }, given)
  | .syntaxOnly => some ({ r with syntaxOnly := true }, given)
  | .argument text => if given then none else some ({ r with expression := text }, true)

/-- The request that items make, which has to give an expression. -/
def checkRequest? (items : List Item) : Option CheckRequest := do
  let start : CheckRequest := ⟨"", none, none, ⟨false, false⟩, false, false⟩
  let (r, given) ← items.foldlM (fun (r, given) item => r.add? given item) (start, false)
  if given then some r else none

def request? : List String → Option Request
  | "check" :: arguments => do
    return .check (← checkRequest? (← items? arguments.length arguments))
  | "tokens" :: arguments => do
    match ← items? arguments.length arguments with
    | [.argument expression] => some (.tokens expression)
    | _ => none
  | _ => none

end JsonQuery.CommandLine
