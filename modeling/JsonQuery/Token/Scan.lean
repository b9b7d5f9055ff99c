import JsonQuery.Report
import JsonQuery.Token.Lexeme

/-! Reading a source text from a cursor, one token at a time. The end of the text is a token too,
and it can be read any number of times. -/
namespace JsonQuery

structure Token where
  kind : TokenKind
  text : String
  span : Span

def Token.line (t : Token) : String :=
  toString t.span.offset ++ " " ++ t.kind.name ++ " " ++ t.text

/-- A place in the source, and what is still to be read from there. -/
structure Cursor where
  offset : Nat
  rest : List Char

namespace Cursor

def start (source : String) : Cursor := ⟨0, source.toList⟩

def past (c : Cursor) (taken rest : List Char) : Cursor := ⟨c.offset + Text.bytes taken, rest⟩

def skipBlanks (c : Cursor) : Cursor :=
  c.past (c.rest.takeWhile Text.isBlank) (c.rest.dropWhile Text.isBlank)

/-- Reads the next token. A string that does not end takes the whole remainder with it, and a single
equals sign stays where it is, so that reading on fails in the same way. -/
def next (c : Cursor) : Except (Located LexError) Token × Cursor :=
  let c := c.skipBlanks
  match c.rest with
  | [] => (.ok ⟨.eof, "", ⟨c.offset, 0⟩⟩, c)
  | first :: others =>
    match Lexeme.read first others with
    | .ok l =>
      (.ok ⟨l.kind, String.ofList l.text, ⟨c.offset, Text.bytes l.taken⟩⟩, c.past l.taken l.rest)
    | .error .unterminatedString =>
      (.error ⟨.unterminatedString, ⟨c.offset, Text.bytes c.rest⟩⟩, c.past c.rest [])
    | .error .singleEquals => (.error ⟨.singleEquals, ⟨c.offset, 1⟩⟩, c)

/-- The next item of an iteration over the tokens, which ends where the text does. A failure is an
item, and the iteration goes on behind it. -/
def item? (c : Cursor) : Option (Except (Located LexError) Token) × Cursor :=
  match c.next with
  | (.ok t, d) => if t.kind = .eof then (none, d) else (some (.ok t), d)
  | (.error e, d) => (some (.error e), d)

theorem length_skipBlanks_le (c : Cursor) : c.skipBlanks.rest.length ≤ c.rest.length :=
  (List.dropWhile_sublist _).length_le

/-- A token other than the end of the text is taken off the remainder. -/
theorem length_next_lt {c d : Cursor} {t : Token} (h : c.next = (.ok t, d))
    (more : t.kind ≠ .eof) : d.rest.length < c.rest.length := by
  have blanks := c.length_skipBlanks_le
  unfold next at h
  dsimp only at h
  split at h
  · cases h; exact absurd rfl more
  · rename_i first others hc
    rw [hc] at blanks
    split at h
    · rename_i hr
      cases h
      exact Nat.lt_of_lt_of_le (Lexeme.length_rest_lt hr) blanks
    · cases h
    · cases h

end Cursor

/-- All tokens of a text before its end, then the token of the end or the failure that came first,
and the cursor after that. -/
structure Scan where
  tokens : List Token
  last : Except (Located LexError) Token
  cursor : Cursor

namespace Scan

def ofCursor (c : Cursor) : Scan :=
  match h : c.next with
  | (.error e, d) => ⟨[], .error e, d⟩
  | (.ok t, d) =>
    if more : t.kind = .eof then ⟨[], .ok t, d⟩
    else
      have := Cursor.length_next_lt h more
      let others := Scan.ofCursor d
      { others with tokens := t :: others.tokens }
termination_by c.rest.length

def of (source : String) : Scan := Scan.ofCursor (.start source)

end Scan

namespace LexError

def message : LexError → String
  | .unterminatedString => "unterminated string"
  | .singleEquals => "`=` should be `==`"

def report (e : Located LexError) : Report := ⟨.lex, e.cause.message, e.span⟩

end LexError
end JsonQuery
