import JsonQuery.Text.Basic
import JsonQuery.Token.Kind

/-! The spelling of tokens. A lexeme is read at the start of a text whose first character is not
blank, and it splits the text: what it takes is not empty, and nothing of the text is lost. -/
namespace JsonQuery

inductive LexError where
  | unterminatedString
  | singleEquals
deriving DecidableEq

/-- A token at the start of a text. The text of a string literal is its decoded content, and the
text of every other token is what it takes. -/
structure Lexeme where
  kind : TokenKind
  text : List Char
  taken : List Char
  rest : List Char

namespace Lexeme

def punctuation : Char → Option TokenKind
  | '.' => some .dot
  | '(' => some .leftParen
  | ')' => some .rightParen
  | '[' => some .leftBracket
  | ']' => some .rightBracket
  | ':' => some .slice
  | '+' | '-' => some .addSub
  | '*' | '/' | '%' => some .mulDiv
  | '^' => some .power
  | _ => none

/-- The characters that begin a comparison, which an equals sign may extend. -/
def isRelation (c : Char) : Bool := c == '<' || c == '>' || c == '!'

/-- A word runs up to a blank, a punctuation mark, a comparison or a quote. -/
def endsWord (c : Char) : Bool :=
  Text.isBlank c || (punctuation c).isSome || isRelation c || c == '=' || c == '"'

/-- Some words are operators. Case matters. -/
def wordKind (word : String) : TokenKind :=
  match word with
  | "and" => .and
  | "or" => .or
  | "not" => .not
  | "where" => .filter
  | "in" | "contains" | "startsWith" | "endsWith" | "before" | "after" => .stringCompare
  | _ => .identifier

/-- Digits, points and underscores continue a number in any arrangement. Whether the number is
well formed is not decided here. -/
def isNumeral (c : Char) : Bool := c.isDigit || c == '.' || c == '_'

/-- A number begins with a digit, or with a point right before a digit. -/
def startsNumber (c : Char) (rest : List Char) : Bool :=
  c.isDigit || (c == '.' && (rest.head?.any Char.isDigit))

/-- Splits what follows an opening quote at the closing one. A quote after a backslash belongs to
the content. -/
def body? : List Char → Option (List Char × List Char)
  | [] => none
  | '"' :: rest => some ([], rest)
  | '\\' :: '"' :: rest => (body? rest).map fun (body, rest) => ('\\' :: '"' :: body, rest)
  | c :: rest => (body? rest).map fun (body, rest) => (c :: body, rest)

/-- The content of a string literal. An escaped quote loses its backslash, and every other
character stands for itself. -/
def unescape : List Char → List Char
  | [] => []
  | '\\' :: '"' :: rest => '"' :: unescape rest
  | c :: rest => c :: unescape rest

/-- The token at the start of a text that begins with a character that is not blank. -/
def read (c : Char) (rest : List Char) : Except LexError Lexeme :=
  if startsNumber c rest then
    let taken := c :: rest.takeWhile isNumeral
    .ok ⟨.number, taken, taken, rest.dropWhile isNumeral⟩
  else if c == '"' then
    match body? rest with
    | none => .error .unterminatedString
    | some (body, rest) => .ok ⟨.string, unescape body, '"' :: body ++ ['"'], rest⟩
  else if c == '=' then
    match rest with
    | '=' :: rest => .ok ⟨.comparison, ['=', '='], ['=', '='], rest⟩
    | _ => .error .singleEquals
  else if isRelation c then
    match rest with
    | '=' :: rest => .ok ⟨.comparison, [c, '='], [c, '='], rest⟩
    | _ => .ok ⟨.comparison, [c], [c], rest⟩
  else
    match punctuation c with
    | some kind => .ok ⟨kind, [c], [c], rest⟩
    | none =>
      let taken := c :: rest.takeWhile (!endsWord ·)
      .ok ⟨wordKind (String.ofList taken), taken, taken, rest.dropWhile (!endsWord ·)⟩

theorem body?_append {cs body rest : List Char} (h : body? cs = some (body, rest)) :
    body ++ '"' :: rest = cs := by
  fun_induction body? cs generalizing body rest with
  | case1 => simp at h
  | case2 r => simp_all
  | case3 r ih =>
    obtain ⟨⟨b, r'⟩, hb, he⟩ := Option.map_eq_some_iff.1 h
    cases he
    simp [ih hb]
  | case4 c r _ _ ih =>
    obtain ⟨⟨b, r'⟩, hb, he⟩ := Option.map_eq_some_iff.1 h
    cases he
    simp [ih hb]

/-- A token takes the start of the text and leaves the remainder. -/
theorem taken_append_rest {c : Char} {rest : List Char} {l : Lexeme} (h : read c rest = .ok l) :
    l.taken ++ l.rest = c :: rest := by
  unfold read at h
  split at h
  · cases h; simp [List.takeWhile_append_dropWhile]
  split at h
  · rename_i hq
    split at h
    · cases h
    · rename_i hb
      cases h
      simp_all [body?_append hb]
  split at h
  · rename_i hq
    split at h <;> cases h
    simp_all
  split at h
  · split at h <;> cases h <;> simp
  split at h
  · cases h; simp
  · cases h; simp [List.takeWhile_append_dropWhile]

/-- Every token takes something. -/
theorem taken_ne_nil {c : Char} {rest : List Char} {l : Lexeme} (h : read c rest = .ok l) :
    l.taken ≠ [] := by
  unfold read at h
  repeat' split at h
  all_goals cases h
  all_goals simp

theorem length_rest_lt {c : Char} {rest : List Char} {l : Lexeme} (h : read c rest = .ok l) :
    l.rest.length < (c :: rest).length := by
  have split := congrArg List.length (taken_append_rest h)
  have taken := List.length_pos_iff.2 (taken_ne_nil h)
  rw [List.length_append] at split
  omega

end Lexeme
end JsonQuery
