import JsonQuery.Proofs.Token.Pieces

/-! How tokens cover a source. Reading again and again splits the source into blanks and what the
tokens take of it, one token after another, up to the end or to a place where no token can be read.
Everything that is said about the order and the places of tokens follows from this split. -/
namespace JsonQuery

/-- Tokens are read one after another, and none of them is the end. -/
inductive Cursor.Reads : Cursor → List Token → Cursor → Prop where
  | done (c : Cursor) : Reads c [] c
  | token {c d e : Cursor} {t : Token} {ts : List Token} :
      c.next = (.ok t, d) → t.kind ≠ .eof → Reads d ts e → Reads c (t :: ts) e

/-- Tokens stand one after another in a text that begins at an offset, each after blanks only, and
something is left after the last of them. Only the text of a string differs from what the token
takes. -/
inductive Tiles : Nat → List Char → List Token → List Char → Prop where
  | done (offset : Nat) (left : List Char) : Tiles offset left [] left
  | token {offset : Nat} {blanks taken after left : List Char} {t : Token} {ts : List Token} :
      (∀ b ∈ blanks, Text.isBlank b = true) → taken ≠ [] →
      t.span = ⟨offset + Text.bytes blanks, Text.bytes taken⟩ →
      (t.kind ≠ .string → t.text = String.ofList taken) →
      Tiles (offset + Text.bytes blanks + Text.bytes taken) after ts left →
      Tiles offset (blanks ++ taken ++ after) (t :: ts) left

/-- The text of a token other than a string is what it takes. -/
theorem Lexeme.text_of_read {c : Char} {rest : List Char} {l : Lexeme} (h : read c rest = .ok l)
    (other : l.kind ≠ .string) : l.text = l.taken := by
  unfold read at h
  split at h
  · cases h
    rfl
  split at h
  · split at h <;> cases h
    exact absurd rfl other
  split at h
  · split at h <;> cases h
    rfl
  split at h
  · split at h <;> cases h <;> rfl
  split at h
  · cases h
    rfl
  · cases h
    rfl

theorem Text.bytes_pos {cs : List Char} (some : cs ≠ []) : 0 < bytes cs :=
  Nat.lt_of_lt_of_le (List.length_pos_iff.mpr some) (length_le_bytes cs)

namespace Tiles

variable {offset : Nat} {text left : List Char} {ts : List Token}

/-- Every token takes a byte at least. -/
theorem length_le (tiles : Tiles offset text ts left) : ts.length ≤ Text.bytes text := by
  induction tiles with
  | done offset left => exact Nat.zero_le _
  | token _ some _ _ _ ih =>
    have one := Text.bytes_pos some
    simp only [List.length_cons, Text.bytes_append]
    omega

/-- A token covers whole characters, one at least, which are its text if it is not a string. -/
theorem covers (tiles : Tiles offset text ts left) : ∀ t ∈ ts, 0 < t.span.length ∧
    ∃ before inside after, text = before ++ inside ++ after ∧
      t.span = ⟨offset + Text.bytes before, Text.bytes inside⟩ ∧
      (t.kind ≠ .string → t.text = String.ofList inside) := by
  induction tiles with
  | done offset left => exact fun t member => absurd member List.not_mem_nil
  | @token offset blanks taken after _ t _ _ some span spelled _ ih =>
    intro u member
    rcases List.mem_cons.mp member with rfl | later
    · refine ⟨?_, blanks, taken, after, rfl, span, spelled⟩
      rw [span]
      exact Text.bytes_pos some
    · obtain ⟨wide, before, inside, rest, rfl, place, spelled'⟩ := ih u later
      refine ⟨wide, blanks ++ taken ++ before, inside, rest, by simp, ?_, spelled'⟩
      rw [place, Text.bytes_append, Text.bytes_append, Nat.add_assoc, Nat.add_assoc, Nat.add_assoc]

/-- No token begins before the one before it ends. -/
theorem pairwise (tiles : Tiles offset text ts left) :
    ts.Pairwise fun t u => t.span.stop ≤ u.span.offset := by
  induction tiles with
  | done offset left => exact .nil
  | token _ _ span _ others ih =>
    refine List.pairwise_cons.mpr ⟨fun u later => ?_, ih⟩
    obtain ⟨-, before, inside, rest, -, place, -⟩ := others.covers u later
    rw [Span.stop, span, place]
    exact Nat.le_add_right _ _

end Tiles

namespace Cursor

variable {c d : Cursor} {t : Token} {ts : List Token}

/-- Tokens that are read one after another split what there is to read, and the cursor keeps its
distance from the end. -/
theorem Reads.tiles (reads : c.Reads ts d) : Tiles c.offset c.rest ts d.rest ∧
    d.offset + Text.bytes d.rest = c.offset + Text.bytes c.rest := by
  induction reads with
  | done c => exact ⟨.done _ _, rfl⟩
  | @token c _ _ _ _ read more _ ih =>
    obtain ⟨blanks, first, others, l, parts, blank, -, found, rfl, rfl⟩ := next_lexeme read more
    obtain ⟨tiles, ends⟩ := ih
    have split : c.rest = blanks ++ l.taken ++ l.rest := by
      rw [parts, List.append_assoc, Lexeme.taken_append_rest found]
    rw [split]
    refine ⟨.token blank (Lexeme.taken_ne_nil found) rfl ?_ tiles, ?_⟩
    · exact fun other => congrArg String.ofList (Lexeme.text_of_read found other)
    · simp only [ends, Text.bytes_append, Nat.add_assoc]

/-- The end is read after blanks only. -/
theorem next_eof (read : c.next = (.ok t, d)) (ends : t.kind = .eof) :
    t.span = ⟨c.offset + Text.bytes c.rest, 0⟩ ∧ ∀ b ∈ c.rest, Text.isBlank b = true := by
  unfold next at read
  dsimp only at read
  split at read
  · rename_i ended
    cases read
    have all : c.rest.takeWhile Text.isBlank = c.rest := by
      have parts := @List.takeWhile_append_dropWhile _ Text.isBlank c.rest
      rwa [show c.rest.dropWhile Text.isBlank = [] from ended, List.append_nil] at parts
    refine ⟨?_, fun b member => ?_⟩
    · simp only [skipBlanks, past, all]
    · rw [← all] at member
      exact List.all_eq_true.mp List.all_takeWhile b member
  · split at read <;> cases read
    rename_i found
    exact absurd ends (Lexeme.kind_ne_eof found)

end Cursor

/-- A scan is reading again and again until the end or a failure. -/
theorem Scan.exists_reads (c : Cursor) : ∃ d, c.Reads (ofCursor c).tokens d ∧
    d.next = ((ofCursor c).last, (ofCursor c).cursor) := by
  fun_induction ofCursor c with
  | case1 c e d h => exact ⟨c, .done c, h⟩
  | case2 c t d h ends => exact ⟨c, .done c, h⟩
  | case3 c t d h more shorter others ih =>
    obtain ⟨stop, reads, last⟩ := ih
    exact ⟨stop, .token h more reads, last⟩

/-- Reading a source again and again comes to its end or to a failure. There are no more tokens
before that than the source has bytes. They stand in order with nothing but blanks between them and
before the first, and each covers whole characters, which are its text unless it is a string. When
the end is read, it is at the end of the source, and nothing but blanks is left. -/
theorem tokens_tile (source : String) :
    (∃ d, (Cursor.start source).Reads (Scan.of source).tokens d ∧
      d.next = ((Scan.of source).last, (Scan.of source).cursor) ∧
      ∀ eof, (Scan.of source).last = .ok eof → eof.kind = .eof) ∧
    ∀ ts d, (Cursor.start source).Reads ts d →
      ts.length ≤ Text.bytes source.toList ∧ Tiles 0 source.toList ts d.rest ∧
      (ts.Pairwise fun t u => t.span.stop ≤ u.span.offset) ∧
      (∀ t ∈ ts, 0 < t.span.length ∧ t.span.Within source.toList ∧
        (t.kind ≠ .string → t.text = String.ofList (t.span.textIn source.toList))) ∧
      ∀ eof d', d.next = (.ok eof, d') → eof.kind = .eof →
        eof.span = ⟨Text.bytes source.toList, 0⟩ ∧ ∀ b ∈ d.rest, Text.isBlank b = true := by
  constructor
  · obtain ⟨d, reads, last⟩ := Scan.exists_reads (.start source)
    exact ⟨d, reads, last, fun eof h => Scan.kind_of_last h⟩
  · intro ts d reads
    obtain ⟨tiles, ends⟩ := reads.tiles
    refine ⟨tiles.length_le, tiles, tiles.pairwise, fun t member => ?_, fun eof d' read kind => ?_⟩
    · obtain ⟨wide, before, inside, after, parts, span, spelled⟩ := tiles.covers t member
      rw [Cursor.start, Nat.zero_add] at span
      refine ⟨wide, ⟨before, inside, after, parts, ?_, ?_⟩, fun other => ?_⟩
      · rw [span]
      · rw [span]
      · rw [spelled other, span, show source.toList = _ from parts, Span.textIn_of_parts]
    · have stop := Cursor.next_eof read kind
      rw [ends, Cursor.start, Nat.zero_add] at stop
      exact stop

/-- Blanks at both ends, no blank between the tokens and a letter of two bytes. -/
theorem tokens_tile_comparison :
    let source := " a<=\"é\"\n"
    let tokens : List Token :=
      [⟨.identifier, "a", ⟨1, 1⟩⟩, ⟨.comparison, "<=", ⟨2, 2⟩⟩, ⟨.string, "é", ⟨4, 4⟩⟩]
    let stop : Cursor := ⟨8, ['\n']⟩
    let eof : Token := ⟨.eof, "", ⟨9, 0⟩⟩
    (Cursor.start source).Reads tokens stop ∧ stop.next = (.ok eof, ⟨9, []⟩) ∧
      tokens.length ≤ Text.bytes source.toList ∧ Tiles 0 source.toList tokens ['\n'] ∧
      (⟨4, 4⟩ : Span).Within source.toList ∧
      eof.span = ⟨Text.bytes source.toList, 0⟩ ∧ ∀ b ∈ ['\n'], Text.isBlank b = true := by
  intro source tokens stop eof
  have text : source.toList = [' ', 'a', '<', '=', '"', 'é', '"', '\n'] := by decide +kernel
  have reads : (Cursor.start source).Reads tokens stop := by
    rw [Cursor.start, text]
    refine .token (d := ⟨2, ['<', '=', '"', 'é', '"', '\n']⟩) ?_ (by decide)
      (.token (d := ⟨4, ['"', 'é', '"', '\n']⟩) ?_ (by decide)
        (.token ?_ (by decide) (.done _)))
    all_goals with_unfolding_all rfl
  have ended : stop.next = (.ok eof, ⟨9, []⟩) := by with_unfolding_all rfl
  have string : (⟨.string, "é", ⟨4, 4⟩⟩ : Token) ∈ tokens := by simp [tokens]
  obtain ⟨few, tiles, -, each, last⟩ := (tokens_tile source).2 tokens stop reads
  exact ⟨reads, ended, few, tiles, (each _ string).2.1, last eof _ ended rfl⟩

end JsonQuery
