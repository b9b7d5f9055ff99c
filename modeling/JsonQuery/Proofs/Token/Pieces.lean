import JsonQuery.Proofs.Token.Placement
import Mathlib.Data.List.Forall2
import Mathlib.Data.List.TakeWhile

/-! The texts of single tokens. What a token takes of a source is read as the same token when it
stands alone, and so it is between blanks. A text that is put together from such pieces with blanks
between them is scanned into their tokens. -/
namespace JsonQuery

namespace Lexeme

variable {c : Char} {cs tail : List Char} {l : Lexeme}

theorem dropWhile_takeWhile (p : Char → Bool) : (cs.takeWhile p).dropWhile p = [] :=
  List.dropWhile_eq_nil_iff.mpr fun c member => List.all_eq_true.mp List.all_takeWhile c member

/-- The content of a string ends at its closing quote, whatever follows. -/
theorem body?_of_eq_some {body rest : List Char} (h : body? cs = some (body, rest))
    (after : List Char) : body? (body ++ '"' :: after) = some (body, after) := by
  fun_induction body? cs generalizing body rest with
  | case1 => cases h
  | case2 r =>
    cases h
    rfl
  | case3 r ih =>
    obtain ⟨⟨b, r'⟩, found, same⟩ := Option.map_eq_some_iff.mp h
    cases same
    simp [body?, ih found]
  | case4 c r closes escapes ih =>
    obtain ⟨⟨b, r'⟩, found, same⟩ := Option.map_eq_some_iff.mp h
    cases same
    -- A quote right after a backslash would have been one before, too.
    have escapes' : ∀ r'', c = '\\' → b ++ '"' :: after = '"' :: r'' → False := by
      intro r'' slash quote
      have split := body?_append found
      cases b with
      | nil => exact escapes rest slash split.symm
      | cons d b =>
        rw [(List.cons.inj quote).1] at split
        exact escapes (b ++ '"' :: rest) slash split.symm
    rw [List.cons_append, body?.eq_4 _ _ closes escapes', ih found]
    rfl

theorem startsNumber_takeWhile (number : startsNumber c cs = true) :
    startsNumber c (cs.takeWhile isNumeral) = true := by
  cases cs with
  | nil => exact number
  | cons d cs =>
    by_cases digit : c.isDigit = true
    · simp [startsNumber, digit]
    · have point : c = '.' ∧ d.isDigit = true := by simpa [startsNumber, digit] using number
      simp [startsNumber, isNumeral, point.1, point.2]

/-- Where no number begins, none does when nothing follows, or after a character other than a
point. -/
theorem not_startsNumber {tail : List Char} (word : ¬startsNumber c cs = true)
    (other : c ≠ '.' ∨ tail = []) : ¬startsNumber c tail = true := by
  rw [startsNumber, Bool.or_eq_true, not_or] at word ⊢
  refine ⟨word.1, ?_⟩
  rcases other with mark | rfl
  · simp [mark]
  · simp

/-- A token is read from what it takes when nothing follows. -/
theorem read_taken (h : read c cs = .ok l) :
    ∃ tail, l.taken = c :: tail ∧ read c tail = .ok { l with rest := [] } := by
  simp only [read] at h
  split at h
  · rename_i number
    cases h
    refine ⟨cs.takeWhile isNumeral, rfl, ?_⟩
    simp only [read, if_pos (startsNumber_takeWhile number), List.takeWhile_idem,
      dropWhile_takeWhile]
  rename_i word
  split at h
  · rename_i quote
    split at h
    · cases h
    · rename_i body rest found
      cases h
      obtain rfl : c = '"' := eq_of_beq quote
      refine ⟨body ++ ['"'], rfl, ?_⟩
      have closed := body?_of_eq_some found []
      simp only [read, if_neg (not_startsNumber word (.inl (by decide))), closed]
      rfl
  rename_i quote
  split at h
  · rename_i equals
    obtain rfl : c = '=' := eq_of_beq equals
    split at h <;> cases h
    exact ⟨['='], rfl, rfl⟩
  rename_i equals
  split at h
  · rename_i relation
    have mark : c ≠ '.' := by
      rintro rfl
      cases relation
    split at h
    · cases h
      refine ⟨['='], rfl, ?_⟩
      simp only [read, if_neg (not_startsNumber word (.inl mark)), if_neg quote, if_neg equals,
        if_pos relation]
    · cases h
      refine ⟨[], rfl, ?_⟩
      simp only [read, if_neg (not_startsNumber word (.inl mark)), if_neg quote, if_neg equals,
        if_pos relation]
  rename_i relation
  split at h
  · rename_i kind mark
    cases h
    refine ⟨[], rfl, ?_⟩
    simp only [read, if_neg (not_startsNumber word (.inr rfl)), if_neg quote, if_neg equals,
      if_neg relation, mark]
  · rename_i plain
    cases h
    have other : c ≠ '.' := by
      rintro rfl
      cases plain
    refine ⟨cs.takeWhile (!endsWord ·), rfl, ?_⟩
    simp only [read, if_neg (not_startsNumber word (.inl other)), if_neg quote, if_neg equals,
      if_neg relation, plain, List.takeWhile_idem, dropWhile_takeWhile]

end Lexeme

def Span.textIn (s : Span) (text : List Char) : List Char :=
  (Text.cutBefore s.length (Text.cutBefore s.offset text).2).1

theorem Span.textIn_of_parts (before inside after : List Char) :
    textIn ⟨Text.bytes before, Text.bytes inside⟩ (before ++ inside ++ after) = inside := by
  rw [textIn, List.append_assoc, Text.cutBefore_bytes, Text.cutBefore_bytes]

namespace Cursor

variable {c d : Cursor} {t : Token} {blanks : List Char}

/-- A token before the end is read after blanks, and the cursor moves past it. -/
theorem next_lexeme (h : c.next = (.ok t, d)) (more : t.kind ≠ .eof) :
    ∃ blanks first others l, c.rest = blanks ++ first :: others ∧
      (∀ b ∈ blanks, Text.isBlank b = true) ∧ Text.isBlank first = false ∧
      Lexeme.read first others = .ok l ∧
      t = ⟨l.kind, String.ofList l.text, ⟨c.offset + Text.bytes blanks, Text.bytes l.taken⟩⟩ ∧
      d = ⟨c.offset + Text.bytes blanks + Text.bytes l.taken, l.rest⟩ := by
  simp only [next, skipBlanks, past] at h
  split at h
  · cases h
    exact absurd rfl more
  · rename_i first others skipped
    split at h <;> cases h
    rename_i l read
    have visible : Text.isBlank first = false := by
      have head := List.head_dropWhile_not Text.isBlank
        (by simp [skipped] : c.rest.dropWhile Text.isBlank ≠ [])
      simpa only [skipped, List.head_cons] using head
    refine ⟨c.rest.takeWhile Text.isBlank, first, others, l, ?_, fun b member => ?_, visible, read,
      rfl, rfl⟩
    · rw [← skipped, List.takeWhile_append_dropWhile]
    · exact List.all_eq_true.mp List.all_takeWhile b member

theorem next_of_blanks (blank : ∀ b ∈ blanks, Text.isBlank b = true) (offset : Nat)
    (cs : List Char) :
    next ⟨offset, blanks ++ cs⟩ = next ⟨offset + Text.bytes blanks, cs⟩ := by
  induction blanks generalizing offset with
  | nil => rfl
  | cons b blanks ih =>
    rw [List.cons_append, next_of_blank (blank b (.head _)),
      ih fun d member => blank d (.tail _ member), Text.bytes_cons, Nat.add_assoc]

end Cursor

/-- The same span without its offset. -/
def Span.unplaced (s : Span) : Span := ⟨0, s.length⟩

def Token.unplaced (t : Token) : Token := ⟨t.kind, t.text, t.span.unplaced⟩

theorem Token.kind_unplaced (t : Token) : t.unplaced.kind = t.kind := rfl

theorem Token.map_plain_of_map_unplaced {ts us : List Token}
    (same : ts.map unplaced = us.map unplaced) : ts.map plain = us.map plain := by
  have plain_unplaced : plain ∘ unplaced = plain := rfl
  rw [← plain_unplaced, ← List.map_map, same, List.map_map]

/-- The end of a text takes nothing of it. -/
theorem Cursor.unplaced_of_eof {c d : Cursor} {t : Token} (h : c.next = (.ok t, d))
    (ends : t.kind = .eof) : t.unplaced = ⟨.eof, "", ⟨0, 0⟩⟩ := by
  simp only [next] at h
  split at h
  · cases h
    rfl
  · split at h <;> cases h
    rename_i read
    exact absurd ends (Lexeme.kind_ne_eof read)

/-- A text that is read as a certain token when nothing stands around it. -/
def Token.Alone (t : Token) (piece : List Char) : Prop :=
  ∃ c cs l, piece = c :: cs ∧ Text.isBlank c = false ∧ Lexeme.read c cs = .ok l ∧ l.rest = [] ∧
    t.unplaced = ⟨l.kind, String.ofList l.text, ⟨0, Text.bytes piece⟩⟩

namespace Token.Alone

variable {t : Token} {piece blanks after : List Char}

theorem kind_ne_eof (alone : t.Alone piece) : t.kind ≠ .eof := by
  obtain ⟨c, cs, l, -, -, read, -, same⟩ := alone
  rw [show t.kind = l.kind from congrArg Token.kind same]
  exact Lexeme.kind_ne_eof read

/-- Between blanks the token is read as it is alone. -/
theorem next (alone : t.Alone piece) (blank : ∀ b ∈ blanks, Text.isBlank b = true)
    (stop : Delimits after) (offset : Nat) :
    ∃ t' d, Cursor.next ⟨offset, blanks ++ piece ++ after⟩ = (.ok t', d) ∧
      t'.unplaced = t.unplaced ∧ d.rest = after := by
  obtain ⟨c, cs, l, rfl, visible, read, ends, same⟩ := alone
  have longer := Lexeme.read_append read stop
  rw [ends, List.nil_append] at longer
  have taken : l.taken = c :: cs := by
    have split := Lexeme.taken_append_rest read
    rwa [ends, List.append_nil] at split
  rw [List.append_assoc, Cursor.next_of_blanks blank, List.cons_append,
    Cursor.next_of_read visible longer]
  exact ⟨_, _, rfl, by rw [same, ← taken]; rfl, rfl⟩

end Token.Alone

/-- Pieces of text with blanks before the first, between any two, and after the last. Only those
between two pieces have to be there. -/
inductive Spaced : List (List Char) → List Char → Prop where
  | none {blanks : List Char} : (∀ b ∈ blanks, Text.isBlank b = true) → Spaced [] blanks
  | last {before piece after : List Char} : (∀ b ∈ before, Text.isBlank b = true) →
      (∀ b ∈ after, Text.isBlank b = true) → Spaced [piece] (before ++ piece ++ after)
  | more {before piece gap next text : List Char} {pieces : List (List Char)} :
      (∀ b ∈ before, Text.isBlank b = true) → gap ≠ [] → (∀ b ∈ gap, Text.isBlank b = true) →
      Spaced (next :: pieces) text →
      Spaced (piece :: next :: pieces) (before ++ piece ++ gap ++ text)

theorem exists_spaced (pieces : List (List Char)) : ∃ text, Spaced pieces text := by
  induction pieces with
  | nil => exact ⟨[], .none fun _ member => nomatch member⟩
  | cons piece pieces ih =>
    cases pieces with
    | nil => exact ⟨[] ++ piece ++ [], .last (by simp) (by simp)⟩
    | cons next pieces =>
      obtain ⟨text, spaced⟩ := ih
      refine ⟨[] ++ piece ++ [' '] ++ text, .more (by simp) (by simp) ?_ spaced⟩
      simp [Text.isBlank]

theorem delimits_of_blanks {blanks : List Char} (blank : ∀ b ∈ blanks, Text.isBlank b = true)
    (rest : List Char) (some : blanks ≠ [] ∨ rest = []) : Delimits (blanks ++ rest) := by
  cases blanks with
  | nil =>
    obtain rfl := some.resolve_left (absurd rfl)
    trivial
  | cons b blanks => exact delimits_of_blank (blank b (.head _)) _

namespace Scan

variable {c : Cursor} {text : List Char}

/-- What a token of a scan covers is read as the token when it stands alone. -/
theorem alone_textIn (on : c.On text) :
    ∀ t ∈ (ofCursor c).tokens, t.Alone (t.span.textIn text) := by
  fun_induction ofCursor c with
  | case1 c e d h => exact fun t member => absurd member List.not_mem_nil
  | case2 c t d h ends => exact fun t member => absurd member List.not_mem_nil
  | case3 c t d h more shorter others ih =>
    intro u member
    rcases List.mem_cons.mp member with rfl | later
    · obtain ⟨before, rfl, offset⟩ := on
      obtain ⟨blanks, first, others, l, parts, -, visible, read, rfl, -⟩ :=
        Cursor.next_lexeme h more
      obtain ⟨tail, taken, read'⟩ := Lexeme.read_taken read
      have covered : Span.textIn ⟨c.offset + Text.bytes blanks, Text.bytes l.taken⟩
          (before ++ c.rest) = l.taken := by
        have split : before ++ c.rest = (before ++ blanks) ++ l.taken ++ l.rest := by
          rw [parts, List.append_assoc _ l.taken, Lexeme.taken_append_rest read, List.append_assoc]
        rw [split, offset, ← Text.bytes_append, Span.textIn_of_parts]
      exact ⟨first, tail, _, covered.trans taken, visible, read', rfl, by rw [covered]; rfl⟩
    · exact ih (on.next.2 t d h) u later

/-- The end of a text takes nothing of it. -/
theorem unplaced_last {eof : Token} (h : (ofCursor c).last = .ok eof) :
    eof.unplaced = ⟨.eof, "", ⟨0, 0⟩⟩ := by
  fun_induction ofCursor c with
  | case1 c e d found => cases h
  | case2 c t d found ends =>
    cases h
    exact Cursor.unplaced_of_eof found ends
  | case3 c t d found more shorter others ih => exact ih h

theorem kind_of_last {eof : Token} (h : (ofCursor c).last = .ok eof) : eof.kind = .eof := by
  rw [← Token.kind_unplaced, unplaced_last h]

theorem kind_ne_eof_of_mem {t : Token} (member : t ∈ (ofCursor c).tokens) : t.kind ≠ .eof :=
  forall_mem_tokens (P := fun kind _ => kind ≠ .eof) Lexeme.kind_ne_eof c t member

theorem ofCursor_of_blanks {blanks : List Char} (blank : ∀ b ∈ blanks, Text.isBlank b = true)
    (offset : Nat) :
    ∃ eof d, ofCursor ⟨offset, blanks⟩ = ⟨[], .ok eof, d⟩ := by
  have ends := Cursor.next_of_blanks blank offset []
  rw [List.append_nil, Cursor.next_nil] at ends
  exact ⟨_, _, ofCursor_of_eof ends rfl⟩

/-- A scan begins with a token that stands between blanks. -/
theorem ofCursor_of_alone {t : Token} {piece blanks after : List Char} (alone : t.Alone piece)
    (blank : ∀ b ∈ blanks, Text.isBlank b = true) (stop : Delimits after) (offset : Nat) :
    ∃ t' offset', ofCursor ⟨offset, blanks ++ piece ++ after⟩ =
        { ofCursor ⟨offset', after⟩ with tokens := t' :: (ofCursor ⟨offset', after⟩).tokens } ∧
      t'.unplaced = t.unplaced := by
  obtain ⟨t', d, read, same, rest⟩ := alone.next blank stop offset
  have kind : t'.kind = t.kind := by rw [← Token.kind_unplaced, same, Token.kind_unplaced]
  refine ⟨t', d.offset, ?_, same⟩
  rw [ofCursor_of_token read (kind ▸ alone.kind_ne_eof), ← rest]

/-- Pieces with blanks between them are scanned into their tokens. -/
theorem ofCursor_of_spaced {ts : List Token} {pieces : List (List Char)}
    (spaced : Spaced pieces text) (alone : List.Forall₂ Token.Alone ts pieces) (offset : Nat) :
    (ofCursor ⟨offset, text⟩).tokens.map Token.unplaced = ts.map Token.unplaced ∧
      ∃ eof, (ofCursor ⟨offset, text⟩).last = .ok eof := by
  induction spaced generalizing ts offset with
  | none blank =>
    cases alone
    obtain ⟨eof, d, scanned⟩ := ofCursor_of_blanks blank offset
    exact ⟨by rw [scanned], eof, by rw [scanned]⟩
  | last before after =>
    obtain _ | ⟨alone, ⟨⟩⟩ := alone
    have stop := delimits_of_blanks after [] (.inr rfl)
    rw [List.append_nil] at stop
    obtain ⟨t', offset', scanned, same⟩ := ofCursor_of_alone alone before stop offset
    obtain ⟨eof, d, ended⟩ := ofCursor_of_blanks after offset'
    rw [scanned, ended]
    exact ⟨congrArg (· :: []) same, eof, rfl⟩
  | @more _ _ gap _ rest _ before some blank _ ih =>
    obtain _ | ⟨alone, others⟩ := alone
    have stop : Delimits (gap ++ rest) := delimits_of_blanks blank rest (.inl some)
    obtain ⟨t', offset', scanned, same⟩ := ofCursor_of_alone alone before stop offset
    rw [ofCursor_of_next_eq (Cursor.next_of_blanks blank offset' rest)] at scanned
    obtain ⟨tokens, last⟩ := ih others (offset' + Text.bytes gap)
    rw [List.append_assoc, scanned]
    refine ⟨?_, last⟩
    rw [List.map_cons, List.map_cons, tokens, same]

/-- Tokens that can stand alone are the tokens of some source. -/
theorem exists_of_alone {ts : List Token} (alone : ∀ t ∈ ts, ∃ piece, t.Alone piece) :
    ∃ source : String, (of source).tokens.map Token.unplaced = ts.map Token.unplaced ∧
      ∃ eof, (of source).last = .ok eof := by
  have pieces : ∃ pieces, List.Forall₂ Token.Alone ts pieces := by
    induction ts with
    | nil => exact ⟨[], .nil⟩
    | cons t ts ih =>
      obtain ⟨piece, first⟩ := alone t (.head _)
      obtain ⟨pieces, others⟩ := ih fun u member => alone u (.tail _ member)
      exact ⟨piece :: pieces, .cons first others⟩
  obtain ⟨pieces, alone⟩ := pieces
  obtain ⟨text, spaced⟩ := exists_spaced pieces
  refine ⟨String.ofList text, ?_⟩
  rw [of, Cursor.start, String.toList_ofList]
  exact ofCursor_of_spaced spaced alone 0

/-- Tokens stand one after another, and the end after all of them. -/
theorem offsets_lt {eof : Token} (h : (ofCursor c).last = .ok eof) :
    (∀ t ∈ (ofCursor c).tokens ++ [eof], c.offset ≤ t.span.offset) ∧
      ((ofCursor c).tokens ++ [eof]).Pairwise fun t u => t.span.offset < u.span.offset := by
  fun_induction ofCursor c with
  | case1 c e d found => cases h
  | case2 c t d found ends =>
    cases h
    obtain ⟨blanks, taken, after, _, _, spans, _⟩ := c.next_split
    rw [found] at spans
    refine ⟨fun u member => ?_, List.pairwise_singleton _ _⟩
    obtain rfl := List.mem_singleton.mp member
    rw [show u.span = _ from spans]
    exact Nat.le_add_right _ _
  | case3 c t d found more shorter others ih =>
    obtain ⟨blanks, first, remainder, l, _, _, _, read, rfl, rfl⟩ := Cursor.next_lexeme found more
    obtain ⟨later, sorted⟩ := ih h
    have taken : 0 < Text.bytes l.taken := by
      have some := List.length_pos_iff.mpr (Lexeme.taken_ne_nil read)
      exact Nat.lt_of_lt_of_le some (Text.length_le_bytes _)
    have before (u : Token) (member : u ∈ others.tokens ++ [eof]) :
        c.offset + Text.bytes blanks < u.span.offset :=
      Nat.lt_of_lt_of_le (Nat.lt_add_of_pos_right taken) (later u member)
    refine ⟨fun u member => ?_, List.pairwise_cons.mpr ⟨before, sorted⟩⟩
    rcases List.mem_cons.mp member with rfl | member
    · exact Nat.le_add_right _ _
    · exact Nat.le_trans (Nat.le_add_right _ _) (Nat.le_of_lt (before u member))

/-- Two tokens of a scan do not stand at the same place. -/
theorem eq_of_span_eq {eof t t' : Token} {before before' after after' : List Token}
    (last : (ofCursor c).last = .ok eof)
    (split : (ofCursor c).tokens ++ [eof] = before ++ t :: after)
    (split' : (ofCursor c).tokens ++ [eof] = before' ++ t' :: after') (same : t.span = t'.span) :
    before = before' ∧ t = t' := by
  have sorted := (offsets_lt last).2
  generalize (ofCursor c).tokens ++ [eof] = ts at sorted split split'
  subst split
  induction before generalizing before' with
  | nil =>
    cases before' with
    | nil => exact ⟨rfl, (List.cons.inj split').1⟩
    | cons u before' =>
      obtain ⟨rfl, rfl⟩ := List.cons.inj split'
      have order := (List.pairwise_cons.mp sorted).1 t' (by simp)
      rw [same] at order
      exact absurd order (Nat.lt_irrefl _)
  | cons u before ih =>
    obtain ⟨order, sorted⟩ := List.pairwise_cons.mp sorted
    cases before' with
    | nil =>
      obtain ⟨rfl, -⟩ := List.cons.inj split'
      have order := order t (by simp)
      rw [same] at order
      exact absurd order (Nat.lt_irrefl _)
    | cons u' before' =>
      obtain ⟨rfl, later⟩ := List.cons.inj split'
      obtain ⟨rfl, rfl⟩ := ih sorted later
      exact ⟨rfl, rfl⟩

end Scan
end JsonQuery
