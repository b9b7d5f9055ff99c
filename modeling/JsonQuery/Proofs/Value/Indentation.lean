import JsonQuery.Proofs.Text.Indentation
import JsonQuery.Proofs.Value.RoundTrip

/-! The two layouts of the text of a value. Without the blanks and line breaks that stand outside
of its strings the indented text is the compact one. Each part of a container is on lines of its
own. -/
namespace JsonQuery.Value

open Text (Place isLayout)
open Text.Place

def quoting (n : Nat) : Place := ⟨.literal, n⟩

/-- A character that neither ends a string nor begins an escape. -/
theorem piece_quoted {c : Char} (n : Nat) (unquoted : c ≠ '"') (plain : c ≠ '\\')
    (unbroken : c ≠ '\n') : Piece (quoting n) (quoting n) [c] [c] := by
  have stays : (quoting n).next c = quoting n := by simp [next, quoting, unquoted, plain]
  have inside : (quoting n).zone ≠ .outside := Text.Zone.noConfusion
  have piece : Piece (quoting n) ((quoting n).next c) [c] [c] :=
    .single (absurd · inside) unbroken
  rwa [stays] at piece

theorem piece_backslash {c : Char} (n : Nat) (unbroken : c ≠ '\n') :
    Piece (quoting n) (quoting n) ['\\', c] ['\\', c] := by
  have backslash : Piece (quoting n) ⟨.escaped, n⟩ ['\\'] ['\\'] :=
    .single (c := '\\') nofun (by decide)
  have escaped : Piece ⟨.escaped, n⟩ (quoting n) [c] [c] :=
    .single nofun unbroken
  exact backslash.append escaped

theorem digitChar_ne {d : Nat} (small : d < 16) :
    d.digitChar ≠ '"' ∧ d.digitChar ≠ '\\' ∧ d.digitChar ≠ '\n' := by
  revert d
  decide

theorem piece_codeEscape (n : Nat) (c : Char) :
    Piece (quoting n) (quoting n) (Text.codeEscape c) (Text.codeEscape c) := by
  have digits : Piece (quoting n) (quoting n) (Text.hexText c.toNat) (Text.hexText c.toNat) := by
    refine .of_forall fun digit member => ?_
    obtain ⟨d, small, rfl⟩ : ∃ d < 16, digit = Nat.digitChar d := by
      simp only [Text.hexText, List.map_cons, List.map_nil, List.mem_cons, List.not_mem_nil,
        or_false] at member
      rcases member with rfl | rfl | rfl | rfl
      all_goals exact ⟨_, Nat.mod_lt _ (by decide), rfl⟩
    obtain ⟨unquoted, plain, unbroken⟩ := digitChar_ne small
    exact piece_quoted n unquoted plain unbroken
  exact (piece_backslash n (by decide)).append digits

/-- What stands for a character of a string is no layout, and the string goes on after it. -/
theorem piece_escape (n : Nat) (c : Char) :
    Piece (quoting n) (quoting n) (escape c) (escape c) := by
  rw [escape]
  split_ifs with quote backslash newline
  iterate 5 exact piece_backslash n (by decide)
  · exact piece_codeEscape n c
  · rw [beq_iff_eq] at quote backslash newline
    exact piece_quoted n quote backslash newline

theorem whole_quote (n : Nat) (s : String) : Whole n (quote s) (quote s) := by
  have opening : Piece (within n) (quoting n) ['"'] ['"'] :=
    .single (c := '"') (fun _ => rfl) (by decide)
  have closing : Piece (quoting n) (within n) ['"'] ['"'] :=
    .single (c := '"') nofun (by decide)
  have body (cs : List Char) :
      Piece (quoting n) (quoting n) (cs.flatMap escape) (cs.flatMap escape) := by
    induction cs with
    | nil => exact .nil _
    | cons c cs ih => exact (piece_escape n c).append ih
  exact ⟨opening.append ((body s.toList).append closing), _, _, rfl, rfl, rfl⟩

/-- No character of a number has a meaning for the layout. -/
theorem isInert_of_isNumeral {c : Char} (numeral : Json.isNumeral c = true) :
    isInert c = true := by
  by_contra other
  simp only [isInert, isLayout, Text.opens, Text.closes, Bool.not_eq_true', Bool.not_eq_false,
    Bool.or_eq_true, beq_iff_eq, or_assoc] at other
  rcases other with rfl | rfl | rfl | rfl | rfl | rfl | rfl
  all_goals exact absurd numeral (by decide)

theorem plain_ne_nil {x : Float} (finite : Number.isFinite x = true) : Number.plain x ≠ [] := by
  obtain ⟨whole, fraction, text, ⟨-, present, -⟩, -⟩ := Number.exists_plain finite
  rw [text]
  intro none
  have none := (List.append_eq_nil_iff.mp none).2
  cases fraction with
  | nil => exact present none
  | cons d fraction => exact present (List.append_eq_nil_iff.mp none).1

theorem whole_null (n : Nat) : Whole n nullText nullText := .inert n nofun rfl

theorem whole_boolean (n : Nat) (b : Bool) : Whole n (booleanText b) (booleanText b) := by
  cases b with
  | false => exact .inert n nofun rfl
  | true => exact .inert n nofun rfl

theorem whole_number (n : Nat) (x : Float) : Whole n (numberText x) (numberText x) := by
  rw [numberText]
  split_ifs with finite
  · refine .inert n (plain_ne_nil finite) (List.all_eq_true.mpr fun c member => ?_)
    exact isInert_of_isNumeral (Number.isNumeral_plain finite c member)
  · exact whole_null n

theorem piece_colon (n : Nat) :
    Piece (within n) (within n) (Layout.colon .compact) (Layout.colon .indented) := by
  have colon : Piece (within n) (within n) [':'] [':'] := .inert n (by decide)
  exact colon.append (.space n)

/-- The two layouts of a value differ in their layout only, however deep the value stands. -/
theorem whole_write (v : Value) (depth n : Nat) :
    Whole n (write .compact depth v) (write .indented n v) := by
  induction v using part_induction generalizing depth n with
  | null => exact whole_null n
  | boolean b => exact whole_boolean n b
  | number x => exact whole_number n x
  | string s => exact whole_quote n s
  | array items ih =>
    rw [write, write, writeItems_eq_map, writeItems_eq_map]
    refine .container rfl rfl ?_
    rw [List.forall₂_map_left_iff, List.forall₂_map_right_iff, List.forall₂_same]
    exact fun v member => ih v member _ _
  | object fields ih =>
    rw [write, write, writeFields_eq_map, writeFields_eq_map]
    refine .container rfl rfl ?_
    rw [List.forall₂_map_left_iff, List.forall₂_map_right_iff, List.forall₂_same]
    intro field member
    have key := whole_quote (n + 1) field.1
    have value := ih field member (depth + 1) (n + 1)
    obtain ⟨c, rest, begins, visible⟩ := key.begins
    refine ⟨(key.append (piece_colon _)).append value.toPiece, c,
      rest ++ Layout.indented.colon ++ write .indented (n + 1) field.2, ?_, visible⟩
    rw [begins]
    rfl

mutual

/-- The number of lines of a value. In a container that is not empty each bracket has a line of its
own, and so has each part, unless it has more. -/
def lineCount : Value → Nat
  | array [] | object [] => 1
  | array items => lineCountItems items + 2
  | object fields => lineCountFields fields + 2
  | _ => 1

def lineCountItems : List Value → Nat
  | [] => 0
  | v :: vs => lineCount v + lineCountItems vs

def lineCountFields : List (String × Value) → Nat
  | [] => 0
  | (_, v) :: fields => lineCount v + lineCountFields fields

end

theorem lineCountItems_eq_sum (vs : List Value) : lineCountItems vs = (vs.map lineCount).sum := by
  induction vs with
  | nil => rfl
  | cons v vs ih => exact congrArg (lineCount v + ·) ih

theorem lineCountFields_eq_sum (fields : List (String × Value)) :
    lineCountFields fields = (fields.map fun field => lineCount field.2).sum := by
  induction fields with
  | nil => rfl
  | cons field fields ih => exact congrArg (lineCount field.2 + ·) ih

theorem count_of_whole {n : Nat} {cs : List Char} (whole : Whole n cs cs) : cs.count '\n' = 0 :=
  List.count_eq_zero_of_not_mem whole.toPiece.not_mem

/-- There is one line break less than there are lines. -/
theorem count_write (v : Value) (depth : Nat) :
    (write .indented depth v).count '\n' + 1 = v.lineCount := by
  induction v using part_induction generalizing depth with
  | null => rfl
  | boolean b => cases b <;> rfl
  | number x => exact congrArg (· + 1) (count_of_whole (whole_number 0 x))
  | string s => exact congrArg (· + 1) (count_of_whole (whole_quote 0 s))
  | array items ih =>
    cases items with
    | nil => rfl
    | cons item items =>
      have lines : (item :: items).map (fun v => (write .indented (depth + 1) v).count '\n' + 1) =
          (item :: items).map lineCount :=
        List.map_congr_left fun v member => ih v member (depth + 1)
      rw [write, writeItems_eq_map, Text.count_container (by simp) rfl rfl, List.map_map,
        lineCount, lineCountItems_eq_sum, ← lines]
      · rfl
      · exact List.cons_ne_nil _ _
  | object fields ih =>
    cases fields with
    | nil => rfl
    | cons field fields =>
      have lines : (field :: fields).map (fun field =>
            (quote field.1 ++ Layout.indented.colon ++
              write .indented (depth + 1) field.2).count '\n' + 1) =
          (field :: fields).map fun field => lineCount field.2 := by
        refine List.map_congr_left fun field member => ?_
        have colon : Layout.indented.colon.count '\n' = 0 := by decide
        rw [List.count_append, List.count_append, count_of_whole (whole_quote 0 field.1), colon,
          Nat.zero_add]
        exact ih field member (depth + 1)
      rw [write, writeFields_eq_map, Text.count_container (by simp) rfl rfl, List.map_map,
        lineCount, lineCountFields_eq_sum, ← lines]
      · rfl
      · exact List.cons_ne_nil _ _

/-- The indented text of a value is its compact text with layout. Without the blanks and line breaks
outside of strings nothing else is left, no line is broken in a string, and each line begins with
two spaces for each container that is open at its first other character. A bracket that closes a
container counts as outside of it. There are as many lines as brackets and single parts ask for. -/
theorem indented_layout (v : Value) :
    Place.start.squeeze v.indented.toList = v.text.toList ∧
      (∀ before later, v.indented.toList = before ++ '\n' :: later →
        (Place.start.after before).zone = .outside) ∧
      (∀ before line later, v.indented.toList = before ++ line ++ later →
        IsLine before line later →
        ∃ spaces c rest, line = spaces ++ c :: rest ∧ (∀ s ∈ spaces, s = ' ') ∧
          isLayout c = false ∧
          spaces.length = 2 * (Place.start.after (before ++ spaces)).level c) ∧
      v.indented.toList.count '\n' + 1 = v.lineCount := by
  have whole := whole_write v 0 0
  rw [indented, text, String.toList_ofList, String.toList_ofList]
  refine ⟨whole.squeezed, fun before later split => (whole.laid before later split).1, ?_,
    count_write v 0⟩
  intro before line later split isLine
  have first : Place.start.Indents (write .indented 0 v) := by
    obtain ⟨c, rest, begins, visible, inner⟩ := whole.begins
    have outermost : (within 0).level c = 0 := by rw [level, inner, if_neg (by decide), within]
    exact ⟨[], c, rest, begins, List.forall_mem_nil _, visible, congrArg (2 * ·) outermost.symm⟩
  have laid := whole.laid
  rw [split] at first laid
  obtain ⟨spaces, c, rest, same, blank, visible, count⟩ := laid.indents first isLine
  rw [← after_append] at count
  exact ⟨spaces, c, rest, same, blank, visible, count⟩

/-- A bracket and a line break in a key do not count, and an empty container stays on its line. -/
theorem indented_layout_nested :
    let v := Value.object [("k\n[", .array [.string "a b", .array []])]
    let before := "\x7b\n  \"k\\n[\": [\n".toList
    let line := "    \"a b\",".toList
    let later := "\n    []\n  ]\n\x7d".toList
    v.indented.toList = before ++ line ++ later ∧ v.text = "\x7b\"k\\n[\":[\"a b\",[]]\x7d" ∧
      IsLine before line later ∧ Place.start.squeeze v.indented.toList = v.text.toList ∧
      ∃ spaces c rest, line = spaces ++ c :: rest ∧ (∀ s ∈ spaces, s = ' ') ∧
        isLayout c = false ∧
        spaces.length = 2 * (Place.start.after (before ++ spaces)).level c := by
  intro v before line later
  have split : v.indented.toList = before ++ line ++ later := by
    rw [indented, String.toList_ofList]
    decide
  have isLine : IsLine before line later := by
    refine ⟨.inr ⟨"\x7b\n  \"k\\n[\": [".toList, ?_⟩, ?_, .inr ⟨"    []\n  ]\n\x7d".toList, ?_⟩⟩
    all_goals decide
  obtain ⟨squeezed, -, lines, -⟩ := indented_layout v
  exact ⟨split, by decide, isLine, squeezed, lines before line later split isLine⟩

end JsonQuery.Value
