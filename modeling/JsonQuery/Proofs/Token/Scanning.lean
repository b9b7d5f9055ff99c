import JsonQuery.Proofs.Token.Spelling

/-! Scanning piece by piece. The tokens at the start of a text are told without their places, so
that texts can be put together: a text that consists of tokens still does so when something follows
that ends words, numbers and comparisons. -/
namespace JsonQuery

/-- The same token without its place. -/
def Token.plain (t : Token) : Token := ⟨t.kind, t.text, ⟨0, 0⟩⟩

def Lexeme.token (l : Lexeme) : Token := ⟨l.kind, String.ofList l.text, ⟨0, 0⟩⟩

/-- A text begins with certain tokens. -/
inductive Scans : List Char → List Token → List Char → Prop where
  | done (rest : List Char) : Scans rest [] rest
  | blank {c : Char} {cs rest : List Char} {ts : List Token} : Text.isBlank c = true →
      Scans cs ts rest → Scans (c :: cs) ts rest
  | lexeme {c : Char} {cs rest : List Char} {l : Lexeme} {ts : List Token} :
      Text.isBlank c = false → Lexeme.read c cs = .ok l → Scans l.rest ts rest →
      Scans (c :: cs) (l.token :: ts) rest

/-- What ends every token that stands right before it. -/
def Delimits : List Char → Prop
  | [] => True
  | c :: _ => Lexeme.endsWord c = true ∧ Lexeme.isNumeral c = false ∧ c ≠ '='

theorem delimits_of_blank {c : Char} (blank : Text.isBlank c = true) (rest : List Char) :
    Delimits (c :: rest) := by
  have ends : Lexeme.endsWord c = true := by simp [Lexeme.endsWord, blank]
  have other (d : Char) (visible : Text.isBlank d = false) : c ≠ d := by
    rintro rfl
    rw [blank] at visible
    cases visible
  have digit : c.isDigit = false := by
    cases digit : c.isDigit with
    | false => rfl
    | true =>
      have range := Char.isDigit_iff_toNat.mp digit
      change 48 ≤ c.toNat ∧ c.toNat ≤ 57 at range
      simp only [Text.isBlank, Bool.or_eq_true, Bool.and_eq_true, decide_eq_true_eq,
        beq_iff_eq] at blank
      omega
  refine ⟨ends, ?_, other '=' rfl⟩
  simp [Lexeme.isNumeral, digit, other '.' rfl, other '_' rfl]

namespace Lexeme

variable {c : Char} {cs rest : List Char} {l : Lexeme}

theorem takeWhile_append_of_stop {p : Char → Bool} (stop : ∀ d, rest.head? = some d → p d = false) :
    (cs ++ rest).takeWhile p = cs.takeWhile p := by
  induction cs with
  | nil =>
    cases rest with
    | nil => rfl
    | cons d rest => simp [stop d rfl]
  | cons c cs ih => simp [List.takeWhile_cons, ih]

theorem dropWhile_append_of_stop {p : Char → Bool} (stop : ∀ d, rest.head? = some d → p d = false) :
    (cs ++ rest).dropWhile p = cs.dropWhile p ++ rest := by
  induction cs with
  | nil =>
    cases rest with
    | nil => rfl
    | cons d rest => simp [stop d rfl]
  | cons c cs ih =>
    by_cases holds : p c = true
    · simp [holds, ih]
    · simp [holds]

theorem body?_append_of_eq_some {body after : List Char} (h : body? cs = some (body, after)) :
    body? (cs ++ rest) = some (body, after ++ rest) := by
  fun_induction body? cs generalizing body after with
  | case1 => cases h
  | case2 r =>
    cases h
    rfl
  | case3 r ih =>
    obtain ⟨⟨b, r'⟩, found, same⟩ := Option.map_eq_some_iff.mp h
    cases same
    simp [body?, ih found]
  | case4 c r closes escapes ih =>
    obtain ⟨⟨b, r'⟩, found, same⟩ := Option.map_eq_some_iff.mp h
    cases same
    have escapes' : ∀ r', c = '\\' → r ++ rest = '"' :: r' → False := by
      intro r' slash quote
      cases r with
      | nil => cases found
      | cons d r => exact escapes r slash (by rw [(List.cons.inj quote).1])
    rw [List.cons_append, body?.eq_4 _ _ closes escapes', ih found]
    rfl

theorem startsNumber_append (stop : Delimits rest) :
    startsNumber c (cs ++ rest) = startsNumber c cs := by
  cases cs with
  | cons d cs => rfl
  | nil =>
    cases rest with
    | nil => rfl
    | cons d rest =>
      have digit : d.isDigit = false := by
        have other := stop.2.1
        simp only [isNumeral, Bool.or_eq_false_iff] at other
        exact other.1.1
      simp [startsNumber, digit]

/-- What ends every token makes no equals sign of a comparison. -/
theorem not_equals_of_delimits (stop : Delimits rest) (alone : ∀ r, cs = '=' :: r → False)
    (r : List Char) : cs ++ rest ≠ '=' :: r := by
  intro same
  cases cs with
  | cons d cs => exact alone cs (by rw [(List.cons.inj same).1])
  | nil =>
    rw [List.nil_append] at same
    subst same
    exact stop.2.2 rfl

/-- What follows a text does not change its first token if it ends every token. -/
theorem read_append (h : read c cs = .ok l) (stop : Delimits rest) :
    read c (cs ++ rest) = .ok { l with rest := l.rest ++ rest } := by
  have numeral : ∀ d, rest.head? = some d → isNumeral d = false := by
    cases rest with
    | nil => simp
    | cons d rest => simpa using stop.2.1
  have word : ∀ d, rest.head? = some d → (!endsWord d) = false := by
    cases rest with
    | nil => simp
    | cons d rest => simpa using stop.1
  unfold read at h ⊢
  rw [startsNumber_append stop]
  split at h
  · rename_i number
    cases h
    rw [if_pos number, takeWhile_append_of_stop numeral, dropWhile_append_of_stop numeral]
  rename_i number
  rw [if_neg number]
  split at h
  · rename_i quote
    rw [if_pos quote]
    split at h
    · cases h
    · rename_i closed
      cases h
      rw [body?_append_of_eq_some closed]
  rename_i quote
  rw [if_neg quote]
  split at h
  · rename_i equals
    rw [if_pos equals]
    split at h
    · cases h
      rfl
    · cases h
  rename_i equals
  rw [if_neg equals]
  split at h
  · rename_i relation
    rw [if_pos relation]
    split at h
    · cases h
      rfl
    · rename_i alone
      cases h
      split
      · rename_i r same
        exact absurd same (not_equals_of_delimits stop alone r)
      · rfl
  rename_i relation
  rw [if_neg relation]
  split at h
  · cases h
    rfl
  · cases h
    dsimp only
    rw [takeWhile_append_of_stop word, dropWhile_append_of_stop word]

/-- The end of a text is no lexeme. -/
theorem kind_ne_eof (h : read c cs = .ok l) : l.kind ≠ .eof := by
  unfold read at h
  split at h
  · cases h
    simp
  split at h
  · split at h <;> cases h
    simp
  split at h
  · split at h <;> cases h
    simp
  split at h
  · split at h <;> cases h <;> simp
  split at h
  · rename_i kind found
    cases h
    unfold punctuation at found
    split at found <;> cases found <;> simp
  · cases h
    dsimp only
    unfold wordKind
    split <;> simp

end Lexeme

namespace Cursor

variable {offset : Nat} {c : Char} {cs : List Char} {l : Lexeme}

theorem next_nil : next ⟨offset, []⟩ = (.ok ⟨.eof, "", ⟨offset, 0⟩⟩, ⟨offset, []⟩) := rfl

theorem next_of_blank (blank : Text.isBlank c = true) :
    next ⟨offset, c :: cs⟩ = next ⟨offset + c.utf8Size, cs⟩ := by
  have skipped : skipBlanks ⟨offset, c :: cs⟩ = skipBlanks ⟨offset + c.utf8Size, cs⟩ := by
    simp [skipBlanks, past, blank, Nat.add_assoc]
  unfold next
  rw [skipped]

theorem next_of_read (visible : Text.isBlank c = false) (read : Lexeme.read c cs = .ok l) :
    next ⟨offset, c :: cs⟩ =
      (.ok ⟨l.kind, String.ofList l.text, ⟨offset, Text.bytes l.taken⟩⟩,
        ⟨offset + Text.bytes l.taken, l.rest⟩) := by
  have stays : skipBlanks ⟨offset, c :: cs⟩ = ⟨offset, c :: cs⟩ := by
    simp [skipBlanks, past, visible]
  unfold next
  rw [stays]
  dsimp only
  rw [read]
  rfl

/-- A token stands after blanks, and either it is the end or a lexeme was read. -/
theorem next_cases {d : Cursor} {t : Token} {c : Cursor} (h : c.next = (.ok t, d)) :
    (t.kind = .eof ∧ c.rest.dropWhile Text.isBlank = []) ∨
    (∃ first others l, c.rest.dropWhile Text.isBlank = first :: others ∧
      Lexeme.read first others = .ok l ∧ t.plain = l.token ∧ d.rest = l.rest) := by
  unfold next at h
  dsimp only at h
  split at h
  · rename_i ended
    cases h
    exact .inl ⟨rfl, ended⟩
  · rename_i first others skipped
    split at h <;> cases h
    rename_i l read
    exact .inr ⟨first, others, l, skipped, read, rfl, rfl⟩

/-- The end can be read again. -/
theorem next_of_eof {c d : Cursor} {t : Token} (h : c.next = (.ok t, d)) (ends : t.kind = .eof) :
    ∃ t' d', d.next = (.ok t', d') := by
  unfold next at h
  dsimp only at h
  split at h
  · rename_i ended
    cases h
    have nothing : c.skipBlanks = ⟨c.skipBlanks.offset, []⟩ := by rw [← ended]
    rw [nothing]
    exact ⟨_, _, next_nil⟩
  · split at h <;> cases h
    rename_i read
    exact absurd ends (Lexeme.kind_ne_eof read)

end Cursor

namespace Scan

variable {c d : Cursor} {t : Token}

theorem ofCursor_of_error {e : Located LexError} (h : c.next = (.error e, d)) :
    ofCursor c = ⟨[], .error e, d⟩ := by
  rw [ofCursor]
  split
  · rename_i found
    cases h.symm.trans found
    rfl
  · rename_i found
    cases h.symm.trans found

theorem ofCursor_of_eof (h : c.next = (.ok t, d)) (ends : t.kind = .eof) :
    ofCursor c = ⟨[], .ok t, d⟩ := by
  rw [ofCursor]
  split
  · rename_i found
    cases h.symm.trans found
  · rename_i found
    cases h.symm.trans found
    rw [dif_pos ends]

theorem ofCursor_of_token (h : c.next = (.ok t, d)) (more : t.kind ≠ .eof) :
    ofCursor c = { ofCursor d with tokens := t :: (ofCursor d).tokens } := by
  rw [ofCursor]
  split
  · rename_i found
    cases h.symm.trans found
  · rename_i found
    cases h.symm.trans found
    rw [dif_neg more]

theorem ofCursor_of_next_eq {c' : Cursor} (same : c.next = c'.next) :
    ofCursor c = ofCursor c' := by
  cases h : c.next with
  | mk outcome d =>
    have h' := same.symm.trans h
    cases outcome with
    | error e => rw [ofCursor_of_error h, ofCursor_of_error h']
    | ok t =>
      by_cases ends : t.kind = .eof
      · rw [ofCursor_of_eof h ends, ofCursor_of_eof h' ends]
      · rw [ofCursor_of_token h ends]
        exact (ofCursor_of_token h' ends).symm

/-- There are no more tokens than characters. -/
theorem length_tokens_le (c : Cursor) : (ofCursor c).tokens.length ≤ c.rest.length := by
  fun_induction ofCursor c with
  | case1 c e d h => exact Nat.zero_le _
  | case2 c t d h ends => exact Nat.zero_le _
  | case3 c t d h more shorter others ih => exact Nat.lt_of_le_of_lt ih shorter

end Scan

namespace Scans

variable {cs ds mid rest : List Char} {ts us : List Token}

theorem append (first : Scans cs ts mid) (last : Scans mid us rest) : Scans cs (ts ++ us) rest := by
  induction first with
  | done rest => exact last
  | blank blank _ ih => exact .blank blank (ih last)
  | lexeme visible read _ ih => exact .lexeme visible read (ih last)

/-- Something may follow if it ends every token. -/
theorem before (first : Scans cs ts mid) (stop : Delimits rest) :
    Scans (cs ++ rest) ts (mid ++ rest) := by
  induction first with
  | done mid => exact .done _
  | blank blank _ ih => exact .blank blank ih
  | lexeme visible read _ ih =>
    have longer := Scans.lexeme visible (Lexeme.read_append read stop) ih
    exact longer

/-- Texts that consist of tokens can be put together. -/
theorem join (first : Scans cs ts []) (stop : Delimits ds) (last : Scans ds us []) :
    Scans (cs ++ ds) (ts ++ us) [] := by
  exact (first.before stop).append last

/-- A character that is a token whatever follows. -/
theorem mark {c : Char} {kind : TokenKind} (visible : Text.isBlank c = false)
    (alone : ∀ cs, Lexeme.read c cs = .ok ⟨kind, [c], [c], cs⟩) (first : Scans cs ts rest) :
    Scans (c :: cs) (⟨kind, String.ofList [c], ⟨0, 0⟩⟩ :: ts) rest := by
  have both := Scans.lexeme visible (alone cs) first
  exact both

theorem skip {blanks : List Char} (all : ∀ c ∈ blanks, Text.isBlank c = true)
    (first : Scans cs ts rest) : Scans (blanks ++ cs) ts rest := by
  induction blanks with
  | nil => exact first
  | cons c blanks ih =>
    exact .blank (all c (.head _)) (ih fun d member => all d (.tail _ member))

theorem of_dropWhile (first : Scans (cs.dropWhile Text.isBlank) ts rest) : Scans cs ts rest := by
  rw [← @List.takeWhile_append_dropWhile _ Text.isBlank cs]
  apply first.skip
  intro c member
  exact List.all_eq_true.mp List.all_takeWhile c member

/-- Scanning goes on until the text is used up. -/
theorem of_scan {c : Cursor} {eof : Token} (h : (Scan.ofCursor c).last = .ok eof) :
    Scans c.rest ((Scan.ofCursor c).tokens.map Token.plain) [] := by
  fun_induction Scan.ofCursor c with
  | case1 c e d found => cases h
  | case2 c t d found ends =>
    apply of_dropWhile
    obtain ⟨_, ended⟩ | ⟨first, others, l, _, read, same, _⟩ := Cursor.next_cases found
    · rw [ended]
      exact .done []
    · have kind : t.kind = l.kind := congrArg Token.kind same
      exact absurd (kind.symm.trans ends) (Lexeme.kind_ne_eof read)
  | case3 c t d found more _ others ih =>
    apply of_dropWhile
    obtain ⟨ends, _⟩ | ⟨first, others, l, skipped, read, same, after⟩ := Cursor.next_cases found
    · exact absurd ends more
    · have visible : Text.isBlank first = false := by
        have head := List.head_dropWhile_not Text.isBlank
          (by simp [skipped] : c.rest.dropWhile Text.isBlank ≠ [])
        simpa only [skipped, List.head_cons] using head
      rw [skipped, List.map_cons, same]
      exact .lexeme visible read (after ▸ ih h)

/-- What consists of certain tokens is scanned into them, from any place on. -/
theorem scan (h : Scans cs ts []) (offset : Nat) :
    (Scan.ofCursor ⟨offset, cs⟩).tokens.map Token.plain = ts ∧
      ∃ eof, (Scan.ofCursor ⟨offset, cs⟩).last = .ok eof := by
  generalize ended : ([] : List Char) = rest at h
  induction h generalizing offset with
  | done rest =>
    subst ended
    rw [Scan.ofCursor_of_eof Cursor.next_nil rfl]
    exact ⟨rfl, _, rfl⟩
  | blank blank _ ih =>
    rw [Scan.ofCursor_of_next_eq (Cursor.next_of_blank blank)]
    exact ih _ ended
  | lexeme visible read _ ih =>
    rw [Scan.ofCursor_of_token (Cursor.next_of_read visible read) (Lexeme.kind_ne_eof read)]
    obtain ⟨tokens, last⟩ := ih _ ended
    refine ⟨?_, last⟩
    rw [List.map_cons, tokens]
    rfl

/-- The tokens of a text, by the scanner and piece by piece. -/
theorem toList_iff {source : String} :
    Scans source.toList ts [] ↔ (Scan.of source).tokens.map Token.plain = ts ∧
      ∃ eof, (Scan.of source).last = .ok eof := by
  constructor
  · intro h
    exact h.scan 0
  · rintro ⟨rfl, eof, last⟩
    exact of_scan last

end Scans
end JsonQuery
