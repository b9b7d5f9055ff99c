import JsonQuery.Number.Notation
import JsonQuery.Text.Layout
import JsonQuery.Value.Basic

/-! The text of a value, as expressions and messages use it. It is JSON text with numbers in plain
notation. A number that is not finite has no JSON text, and null stands for it. -/
namespace JsonQuery.Value

def isControl (c : Char) : Bool :=
  c.toNat < 0x20 || (0x7F ≤ c.toNat && c.toNat ≤ 0x9F)

def escape (c : Char) : List Char :=
  if c == '"' then ['\\', '"']
  else if c == '\\' then ['\\', '\\']
  else if c == '\n' then ['\\', 'n']
  else if c == '\r' then ['\\', 'r']
  else if c == '\t' then ['\\', 't']
  else if isControl c then Text.codeEscape c
  else [c]

def quote (s : String) : List Char := Text.quoted escape s.toList

def nullText : List Char := ['n', 'u', 'l', 'l']

def booleanText : Bool → List Char
  | true => ['t', 'r', 'u', 'e']
  | false => ['f', 'a', 'l', 's', 'e']

def numberText (n : Float) : List Char :=
  if Number.isFinite n then Number.plain n else nullText

mutual

def write (l : Layout) (depth : Nat) : Value → List Char
  | null => nullText
  | boolean b => booleanText b
  | number n => numberText n
  | string s => quote s
  | array items => l.container depth '[' ']' (writeItems l (depth + 1) items)
  | object fields => l.container depth '{' '}' (writeFields l (depth + 1) fields)

def writeItems (l : Layout) (depth : Nat) : List Value → List (List Char)
  | [] => []
  | v :: vs => write l depth v :: writeItems l depth vs

def writeFields (l : Layout) (depth : Nat) : List (String × Value) → List (List Char)
  | [] => []
  | (k, v) :: fields => (quote k ++ l.colon ++ write l depth v) :: writeFields l depth fields

end

def text (v : Value) : String := String.ofList (v.write .compact 0)

def indented (v : Value) : String := String.ofList (v.write .indented 0)

/-- What a value amounts to where a string is wanted. A string stands for itself. -/
def asString : Value → String
  | string s => s
  | v => v.text

end JsonQuery.Value
