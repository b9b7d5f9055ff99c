import JsonQuery.Proofs.Token.Pieces

/-! String literals. Every text that does not end in a backslash has one literal, in which each of
its quotes stands behind a backslash, and a literal is read as its text whatever follows. No other
literals are ever read, so a backslash that is not before a quote stands for itself. -/
namespace JsonQuery

namespace Lexeme

variable {content body cs rest : List Char} {l : Lexeme}

/-- A text with a backslash before every quote. -/
def escape (content : List Char) : List Char :=
  content.flatMap fun c => if c = '"' then ['\\', '"'] else [c]

def quote (content : List Char) : List Char := '"' :: escape content ++ ['"']

/-- A literal cannot have a backslash before its closing quote. -/
def Quotable (content : List Char) : Prop := content.getLast? ≠ some '\\'

@[simp] theorem escape_nil : escape [] = [] := rfl

@[simp] theorem escape_quote : escape ('"' :: cs) = '\\' :: '"' :: escape cs := rfl

theorem escape_of_ne {c : Char} (other : c ≠ '"') : escape (c :: cs) = c :: escape cs := by
  simp [escape, other]

/-- An escaped text does not begin with a quote. -/
theorem escape_ne_quote (content after : List Char) : escape content ≠ '"' :: after := by
  cases content with
  | nil => simp
  | cons c cs =>
    by_cases quote : c = '"'
    · subst quote
      simp
    · rw [escape_of_ne quote]
      exact fun same => quote (List.cons.inj same).1

theorem quotable_nil : Quotable [] := by simp [Quotable]

theorem quotable_cons {c : Char} :
    Quotable (c :: cs) ↔ Quotable cs ∧ (cs = [] → c ≠ '\\') := by
  cases cs with
  | nil => simp [Quotable]
  | cons d cs => simp [Quotable]

theorem unescape_escape (content : List Char) : unescape (escape content) = content := by
  induction content with
  | nil => rfl
  | cons c cs ih =>
    by_cases quote : c = '"'
    · subst quote
      rw [escape_quote, unescape, ih]
    · have alone : ∀ after, c = '\\' → escape cs = '"' :: after → False :=
        fun after _ same => escape_ne_quote cs after same
      rw [escape_of_ne quote, unescape.eq_3 _ _ alone, ih]

/-- The content of a literal ends at its closing quote, since no backslash stands before that. -/
theorem body?_escape (quotable : Quotable content) (rest : List Char) :
    body? (escape content ++ '"' :: rest) = some (escape content, rest) := by
  induction content with
  | nil => rfl
  | cons c cs ih =>
    obtain ⟨others, last⟩ := quotable_cons.mp quotable
    by_cases quote : c = '"'
    · subst quote
      simp [body?, ih others]
    · have alone : ∀ after, c = '\\' → escape cs ++ '"' :: rest = '"' :: after → False := by
        intro after slash same
        cases escaped : escape cs with
        | nil =>
          have empty : cs = [] := by rw [← unescape_escape cs, escaped, unescape]
          exact last empty slash
        | cons d ds =>
          rw [escaped] at same
          obtain rfl := (List.cons.inj same).1
          exact escape_ne_quote cs ds escaped
      rw [escape_of_ne quote, List.cons_append, body?.eq_4 _ _ quote alone, ih others]
      rfl

/-- What is found before a closing quote is a text with its quotes escaped. -/
theorem escape_of_body? (found : body? cs = some (body, rest)) :
    escape (unescape body) = body ∧ Quotable (unescape body) := by
  fun_induction body? cs generalizing body rest with
  | case1 => cases found
  | case2 r =>
    cases found
    exact ⟨rfl, quotable_nil⟩
  | case3 r ih =>
    obtain ⟨⟨b, r'⟩, found, same⟩ := Option.map_eq_some_iff.mp found
    cases same
    obtain ⟨escaped, quotable⟩ := ih found
    rw [unescape, escape_quote, escaped]
    exact ⟨rfl, quotable_cons.mpr ⟨quotable, fun _ => by decide⟩⟩
  | case4 c r closes escapes ih =>
    obtain ⟨⟨b, r'⟩, found, same⟩ := Option.map_eq_some_iff.mp found
    cases same
    obtain ⟨escaped, quotable⟩ := ih found
    have split := body?_append found
    have alone : ∀ after, c = '\\' → b = '"' :: after → False := by
      rintro after slash rfl
      exact escapes (after ++ '"' :: rest) slash split.symm
    rw [unescape.eq_3 _ _ alone, escape_of_ne closes, escaped]
    refine ⟨rfl, quotable_cons.mpr ⟨quotable, fun empty slash => ?_⟩⟩
    -- Without content in between, the backslash would stand before the closing quote.
    rw [empty, escape_nil] at escaped
    rw [← escaped] at split
    exact escapes rest slash split.symm

/-- A literal is read whole, and as its text. -/
theorem read_quote (quotable : Quotable content) (rest : List Char) :
    read '"' (escape content ++ '"' :: rest) = .ok ⟨.string, content, quote content, rest⟩ := by
  have number : ¬startsNumber '"' (escape content ++ '"' :: rest) = true := by
    simp [startsNumber]
  unfold read
  rw [if_neg number, if_pos (beq_self_eq_true _), body?_escape quotable]
  simp only [unescape_escape, quote]

/-- All string tokens are literals. -/
theorem quote_of_read {c : Char} (found : read c cs = .ok l) (kind : l.kind = .string) :
    l.taken = quote l.text ∧ Quotable l.text := by
  unfold read at found
  split at found
  · cases found
    cases kind
  split at found
  · split at found
    · cases found
    · rename_i split
      cases found
      obtain ⟨escaped, quotable⟩ := escape_of_body? split
      exact ⟨by rw [quote, escaped], quotable⟩
  split at found
  · split at found <;> cases found
    cases kind
  split at found
  · split at found <;> cases found <;> cases kind
  split at found
  · rename_i mark
    cases found
    unfold punctuation at mark
    split at mark <;> cases mark <;> cases kind
  · cases found
    dsimp only at kind
    unfold wordKind at kind
    split at kind <;> cases kind

end Lexeme

open Lexeme

def Token.quoted (content : String) : String := String.ofList (quote content.toList)

theorem Cursor.next_quote {content : List Char} (quotable : Quotable content) (offset : Nat)
    (after : List Char) : Cursor.next ⟨offset, quote content ++ after⟩ =
      (.ok ⟨.string, String.ofList content, ⟨offset, Text.bytes (quote content)⟩⟩,
        ⟨offset + Text.bytes (quote content), after⟩) := by
  have parts : quote content ++ after = '"' :: (escape content ++ '"' :: after) := by
    simp [quote]
  rw [parts]
  exact Cursor.next_of_read rfl (read_quote quotable after)

/-- Wherever a string token is read, its text is quotable, and its literal stands there. -/
theorem Cursor.On.exists_quote {c d : Cursor} {t : Token} {text : List Char} (on : c.On text)
    (read : c.next = (.ok t, d)) (kind : t.kind = .string) :
    Quotable t.text.toList ∧ ∃ before after, text = before ++ quote t.text.toList ++ after ∧
      t.span = ⟨Text.bytes before, Text.bytes (quote t.text.toList)⟩ := by
  obtain ⟨before, rfl, offset⟩ := on
  obtain ⟨blanks, first, others, l, parts, -, -, found, rfl, -⟩ :=
    Cursor.next_lexeme read (by simp [kind])
  obtain ⟨taken, quotable⟩ := quote_of_read found kind
  simp only [String.toList_ofList, ← taken]
  refine ⟨quotable, before ++ blanks, l.rest, ?_, ?_⟩
  · rw [parts, ← Lexeme.taken_append_rest found]
    simp
  · rw [offset, Text.bytes_append]

/-- A text that does not end in a backslash is what its literal is read as, whatever follows the
literal. At any place of any source, a string token has such a text, and covers its literal. -/
theorem literals_round_trip :
    (∀ content after : String, Quotable content.toList →
      (Cursor.start (Token.quoted content ++ after)).next =
        (.ok ⟨.string, content, ⟨0, Text.bytes (Token.quoted content).toList⟩⟩,
          ⟨Text.bytes (Token.quoted content).toList, after.toList⟩)) ∧
    ∀ (source : String) (c d : Cursor) (t : Token), c.On source.toList → c.next = (.ok t, d) →
      t.kind = .string → Quotable t.text.toList ∧
        ∃ before after : String, source = before ++ Token.quoted t.text ++ after ∧
          t.span = ⟨Text.bytes before.toList, Text.bytes (Token.quoted t.text).toList⟩ := by
  constructor
  · intro content after quotable
    have read := Cursor.next_quote quotable 0 after.toList
    rw [String.ofList_toList, Nat.zero_add] at read
    rw [Cursor.start, String.toList_append, Token.quoted, String.toList_ofList]
    exact read
  · intro source c d t on read kind
    obtain ⟨quotable, before, after, parts, span⟩ := on.exists_quote read kind
    refine ⟨quotable, String.ofList before, String.ofList after, ?_, ?_⟩
    · rw [← String.ofList_toList (s := source), parts, Token.quoted]
      simp only [String.ofList_append]
    · rw [span, Token.quoted, String.toList_ofList, String.toList_ofList]

/-- A text with a quote after a backslash, a line break and a letter of two bytes, followed by what
looks like the rest of a literal, and the literal of such a text inside a sum. -/
theorem literals_round_trip_escapes :
    let content := "\\\"é\nb\\c"
    let source := "a + \"\\\\\"é\nb\\c\""
    (Quotable content.toList ∧ (Cursor.start (Token.quoted content ++ "\" x")).next =
      (.ok ⟨.string, content, ⟨0, Text.bytes (Token.quoted content).toList⟩⟩,
        ⟨Text.bytes (Token.quoted content).toList, "\" x".toList⟩)) ∧
    ∃ (c : Cursor) (t : Token) (d : Cursor), c.On source.toList ∧ c.next = (.ok t, d) ∧
      t.kind = .string ∧ Quotable t.text.toList ∧ ∃ before after : String,
        source = before ++ Token.quoted t.text ++ after ∧
          t.span = ⟨Text.bytes before.toList, Text.bytes (Token.quoted t.text).toList⟩ := by
  intro content source
  have quotable : Quotable content.toList := by unfold Quotable; decide
  have parts : source.toList = ['a', ' ', '+', ' '] ++ (quote content.toList ++ []) := by
    decide +kernel
  have on : (⟨4, quote content.toList ++ []⟩ : Cursor).On source.toList := ⟨_, parts, rfl⟩
  have read := Cursor.next_quote quotable 4 []
  exact ⟨⟨quotable, literals_round_trip.1 content "\" x" quotable⟩, _, _, _, on, read, rfl,
    literals_round_trip.2 source _ _ _ on read rfl⟩

end JsonQuery
