/-! How text is quoted, and how the parts of nested containers are set apart, either by nothing or
by line breaks and two spaces for each open container. -/
namespace JsonQuery.Text

def hexText (n : Nat) : List Char :=
  [n / 4096 % 16, n / 256 % 16, n / 16 % 16, n % 16].map Nat.digitChar

def codeEscape (c : Char) : List Char := '\\' :: 'u' :: hexText c.toNat

def quoted (escape : Char → List Char) (cs : List Char) : List Char :=
  '"' :: cs.flatMap escape ++ ['"']

end JsonQuery.Text

namespace JsonQuery

inductive Layout where
  | compact
  | indented
deriving DecidableEq

namespace Layout

def newline (l : Layout) (depth : Nat) : List Char :=
  match l with
  | .compact => []
  | .indented => '\n' :: List.replicate (2 * depth) ' '

def colon : Layout → List Char
  | .compact => [':']
  | .indented => [':', ' ']

/-- Items with commas between them, each after a break. -/
def items (l : Layout) (depth : Nat) : List (List Char) → List Char
  | [] => []
  | [last] => l.newline depth ++ last
  | item :: others => l.newline depth ++ item ++ ',' :: l.items depth others

/-- A container at a given depth. An empty one has no breaks. -/
def container (l : Layout) (depth : Nat) (opening closing : Char) :
    List (List Char) → List Char
  | [] => [opening, closing]
  | parts => opening :: l.items (depth + 1) parts ++ l.newline depth ++ [closing]

end Layout
end JsonQuery
