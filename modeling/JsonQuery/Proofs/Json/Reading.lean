import JsonQuery.Json.Read
import JsonQuery.Proofs.Json.Content
import JsonQuery.Proofs.Json.Numeral
import JsonQuery.Text.Layout
import Mathlib.Data.List.Forall2

/-! Texts that are read as certain documents wherever a document is due. Containers are put together
from such texts in any layout, since the layout adds nothing but blanks between tokens. -/
namespace JsonQuery.Json

open Number (IsWhole Scales pointed)

variable {cs rest : List Char} {c : Char} {t : Token} {j : Json} {due : Due} {frames : List Open}
  {l : Layout} {n depth : Nat} {whole fraction scale : List Char}

def resume? (due : Due) (cs : List Char) : Option Json := (tokens? cs).bind (run? · due)

theorem resume?_nil : resume? due [] = run? [] due := by
  rw [resume?, tokens?]
  rfl

theorem resume?_space (space : isSpace c = true) : resume? due (c :: cs) = resume? due cs := by
  rw [resume?, tokens?, if_pos space, resume?]

theorem resume?_spaces {blanks : List Char} (spaces : ∀ c ∈ blanks, isSpace c = true) :
    resume? due (blanks ++ cs) = resume? due cs := by
  induction blanks with
  | nil => rfl
  | cons c blanks ih =>
    rw [List.cons_append, resume?_space (spaces c List.mem_cons_self)]
    exact ih fun d member => spaces d (List.mem_cons_of_mem c member)

/-- A token moves the reader on. -/
theorem resume?_token (visible : isSpace c = false) (read : Token.read? c cs = some (t, rest)) :
    resume? due (c :: cs) = (due.step? t).bind fun due => resume? due rest := by
  have tokens : tokens? (c :: cs) = (tokens? rest).map (t :: ·) := by
    rw [tokens?, visible]
    simp only [Bool.false_eq_true, if_false]
    split
    · rename_i none
      rw [read] at none
      cases none
    · rename_i found
      rw [read] at found
      cases found
      rfl
  simp only [resume?, tokens]
  cases tokens? rest with
  | none => cases due.step? t <;> rfl
  | some ts => rfl

/-- A document is due inside of some containers. An array that was just opened may be closed as
well. -/
def Awaits (due : Due) (frames : List Open) : Prop :=
  ∀ t, t ≠ .closeArray → due.step? t = begin? frames t

theorem awaits_value : Awaits (.value frames) frames := fun _ _ => rfl

theorem awaits_firstItem : Awaits (.firstItem frames) (.array [] :: frames) := by
  intro t other
  cases t <;> first | rfl | exact absurd rfl other

/-- A text ends where no number could go on. -/
def Ended (rest : List Char) : Prop := ∀ c ∈ rest.head?, isNumeral c = false

/-- A text takes the reader from one place to another, whatever follows. -/
def Moves (due : Due) (cs : List Char) (due' : Due) : Prop :=
  ∀ rest, Ended rest → resume? due (cs ++ rest) = resume? due' rest

/-- A text is read as a document wherever one is due, unless it is nested too deeply there. -/
def Reads (n : Nat) (cs : List Char) (j : Json) : Prop :=
  ∀ due frames, Awaits due frames → frames.length + n ≤ nestingLimit → Moves due cs (.next j frames)

theorem Reads.mono {m : Nat} (h : Reads n cs j) (le : n ≤ m) : Reads m cs j :=
  fun due frames awaits few => h due frames awaits (Nat.le_trans (Nat.add_le_add_left le _) few)

/-- A text that is read as a document in no container is the whole text of the document. -/
theorem Reads.read? (h : Reads n cs j) (shallow : n ≤ nestingLimit) :
    read? (String.ofList cs) = some j := by
  have moves := h (.value []) [] awaits_value (by simpa using shallow) [] nofun
  rw [List.append_nil, resume?_nil] at moves
  rw [Json.read?, String.toList_ofList]
  exact moves

/-- A token without parts is read as what it stands for. -/
theorem reads_of_token (other : t ≠ .closeArray) (visible : isSpace c = false)
    (begins : ∀ frames, begin? frames t = some (.next j frames))
    (read : ∀ rest, Ended rest → Token.read? c (cs ++ rest) = some (t, rest)) :
    Reads n (c :: cs) j := by
  intro due frames awaits _ rest ended
  rw [List.cons_append, resume?_token visible (read rest ended), awaits t other, begins]
  rfl

theorem reads_null : Reads n ['n', 'u', 'l', 'l'] .null :=
  reads_of_token (t := .scalar .null) nofun rfl (fun _ => rfl) fun _ _ => rfl

theorem reads_true : Reads n ['t', 'r', 'u', 'e'] (.boolean true) :=
  reads_of_token (t := .scalar (.boolean true)) nofun rfl (fun _ => rfl) fun _ _ => rfl

theorem reads_false : Reads n ['f', 'a', 'l', 's', 'e'] (.boolean false) :=
  reads_of_token (t := .scalar (.boolean false)) nofun rfl (fun _ => rfl) fun _ _ => rfl

theorem reads_string {escape : Char → List Char} (escapes : Escapes escape) (s : String) :
    Reads n (Text.quoted escape s.toList) (.string s) := by
  change Reads n ('"' :: (s.toList.flatMap escape ++ ['"'])) _
  refine reads_of_token (t := .string s) nofun rfl (fun _ => rfl) fun rest _ => ?_
  rw [List.append_assoc]
  exact read?_quoted escapes s rest

theorem isSpace_of_isNumeral (numeral : isNumeral c = true) : isSpace c = false := by
  by_contra space
  simp only [isSpace, Bool.not_eq_false, Bool.or_eq_true, beq_iff_eq] at space
  rcases space with ((rfl | rfl) | rfl) | rfl <;> cases numeral

/-- No other token begins like a number text. -/
theorem read?_numeral (numeral : isNumeral c = true) : Token.read? c cs =
    (ofNumberText? (c :: cs.takeWhile isNumeral)).map fun j =>
      (.scalar j, cs.dropWhile isNumeral) := by
  unfold Token.read?
  split <;> first | rfl | cases numeral

/-- A number text is read to its end. -/
theorem reads_number (numeral : ∀ c ∈ cs, isNumeral c = true) (number : ofNumberText? cs = some j) :
    Reads n cs j := by
  cases cs with
  | nil => cases number
  | cons c cs =>
    have first := numeral c List.mem_cons_self
    refine reads_of_token (t := .scalar j) nofun (isSpace_of_isNumeral first) (fun _ => rfl)
      fun rest ended => ?_
    obtain ⟨taken, left⟩ :=
      Text.span_append (fun d member => numeral d (List.mem_cons_of_mem c member))
      ended
    rw [read?_numeral first, taken, left, number]
    rfl

theorem isNumeral_of_isDigit (digit : c.isDigit = true) : isNumeral c = true := by
  simp [isNumeral, digit]

theorem isNumeral_scales {e : Int} (scales : Scales scale e) : ∀ c ∈ scale, isNumeral c = true := by
  cases scales with
  | one => nofun
  | marked e =>
    intro c member
    rcases List.mem_cons.mp member with rfl | member
    · rfl
    rcases List.mem_cons.mp member with rfl | digit
    · split <;> rfl
    · exact isNumeral_of_isDigit (Number.isDigit_of_mem_digitsText digit)

theorem isNumeral_pointed (isWhole : IsWhole whole) (digits : ∀ c ∈ fraction, c.isDigit = true) :
    ∀ c ∈ pointed whole fraction, isNumeral c = true := by
  intro c member
  cases fraction with
  | nil => exact isNumeral_of_isDigit (isWhole.1 c member)
  | cons d others =>
    rcases List.mem_append.mp member with before | after
    · exact isNumeral_of_isDigit (isWhole.1 c before)
    · rcases List.mem_cons.mp after with rfl | after
      · rfl
      · exact isNumeral_of_isDigit (digits c after)

theorem isNumeral_sign (negative : Bool) :
    ∀ c ∈ if negative then ['-'] else [], isNumeral c = true := by
  cases negative with
  | false => nofun
  | true =>
    intro c member
    rw [List.mem_singleton.mp member]
    rfl

/-! ### Layout -/

theorem isSpace_newline (l : Layout) (depth : Nat) : ∀ c ∈ l.newline depth, isSpace c = true := by
  cases l with
  | compact => nofun
  | indented =>
    intro c member
    rcases List.mem_cons.mp member with rfl | space
    · rfl
    · rw [List.eq_of_mem_replicate space]
      rfl

/-- What follows a document in a container ends it. -/
theorem ended_newline (l : Layout) (depth : Nat) (ended : Ended rest) :
    Ended (l.newline depth ++ rest) := by
  cases l with
  | compact => exact ended
  | indented =>
    rintro c ⟨⟩
    rfl

theorem ended_cons (other : isNumeral c = false) : Ended (c :: rest) := by
  rintro d ⟨⟩
  exact other

theorem Moves.after_newline {due' : Due} (h : Moves due cs due') :
    Moves due (l.newline depth ++ cs) due' := by
  intro rest ended
  rw [List.append_assoc, resume?_spaces (isSpace_newline l depth)]
  exact h rest ended

/-- Parts of a container, from where the first is due to where the last ends. Commas lead from one
to the next. -/
inductive Runs : Due → List (List Char) → Due → Prop where
  | last {due part final} : Moves due part final → Runs due [part] final
  | more {due part ended next parts final} : Moves due part ended → ended.step? .comma = some next →
      Runs next parts final → Runs due (part :: parts) final

theorem items_cons {part : List Char} {parts : List (List Char)} (present : parts ≠ []) :
    l.items depth (part :: parts) =
      l.newline depth ++ part ++ ',' :: l.items depth parts := by
  cases parts with
  | nil => exact absurd rfl present
  | cons => rfl

theorem Runs.ne_nil {parts : List (List Char)} {final : Due} (h : Runs due parts final) :
    parts ≠ [] := by
  cases h <;> exact List.cons_ne_nil _ _

theorem Runs.items {parts : List (List Char)} {final : Due} (h : Runs due parts final) :
    Moves due (l.items depth parts) final := by
  induction h with
  | last moves => exact moves.after_newline
  | @more due part ended next parts final moves comma others ih =>
    intro rest stops
    rw [items_cons others.ne_nil, List.append_assoc, List.cons_append,
      moves.after_newline _ (ended_cons rfl), resume?_token (t := .comma) rfl rfl, comma]
    exact ih rest stops

/-- A container with parts is read from its opening to its closing character. -/
theorem Runs.container {parts : List (List Char)} {inside final due' : Due} {opening closing : Char}
    (h : Runs inside parts final)
    (opens : ∀ rest, resume? due (opening :: rest) = resume? inside rest)
    (closes : ∀ rest, resume? final (closing :: rest) = resume? due' rest)
    (stops : isNumeral closing = false) :
    Moves due (l.container depth opening closing parts) due' := by
  intro rest _
  have shape : l.container depth opening closing parts =
      opening :: l.items (depth + 1) parts ++ l.newline depth ++ [closing] := by
    cases h <;> rfl
  rw [shape, List.append_assoc, List.append_assoc, List.cons_append, opens, List.singleton_append,
    h.items _ (ended_newline l depth (ended_cons stops)),
    resume?_spaces (isSpace_newline l depth)]
  exact closes rest

/-- The items of an array are read one after the other, behind those that are already there. -/
theorem runs_items {parts : List (List Char)} {js done : List Json}
    (h : List.Forall₂ (Reads n) parts js) (present : parts ≠ [])
    (awaits : Awaits due (.array done :: frames)) (few : frames.length + (n + 1) ≤ nestingLimit) :
    ∃ j before, Runs due parts (.next j (.array before :: frames)) ∧
      (j :: before).reverse = done.reverse ++ js := by
  induction h generalizing due done with
  | nil => exact absurd rfl present
  | @cons part j parts js reads others ih =>
    have moves := reads due _ awaits (by rw [List.length_cons]; omega)
    cases parts with
    | nil =>
      cases others
      exact ⟨j, done, .last moves, List.reverse_cons⟩
    | cons part' parts =>
      have awaits' : Awaits (.value (.array (j :: done) :: frames)) _ := awaits_value
      obtain ⟨last, before, run, same⟩ := ih (List.cons_ne_nil _ _) awaits'
      refine ⟨last, before, .more moves rfl run, ?_⟩
      rw [same, List.reverse_cons, List.append_assoc]
      rfl

theorem reads_array {parts : List (List Char)} {js : List Json}
    (h : List.Forall₂ (Reads n) parts js) :
    Reads (n + 1) (l.container depth '[' ']' parts) (.array js) := by
  intro due frames awaits few
  have opens (rest : List Char) :
      resume? due ('[' :: rest) = resume? (.firstItem frames) rest := by
    have room : frames.length < nestingLimit := by omega
    rw [resume?_token (t := .openArray) rfl rfl, awaits .openArray nofun, begin?, if_pos room]
    rfl
  cases parts with
  | nil =>
    cases h
    intro rest _
    change resume? due ('[' :: ']' :: rest) = _
    rw [opens, resume?_token (t := .closeArray) rfl rfl]
    rfl
  | cons part parts =>
    obtain ⟨j, before, run, same⟩ := runs_items h (List.cons_ne_nil _ _) awaits_firstItem few
    refine run.container opens (fun rest => ?_) rfl
    rw [resume?_token (t := .closeArray) rfl rfl, Due.step?, same]
    rfl

def ReadsField (l : Layout) (escape : Char → List Char) (n : Nat) (part : List Char)
    (field : String × Json) : Prop :=
  ∃ cs, part = Text.quoted escape field.1.toList ++ l.colon ++ cs ∧ Reads n cs field.2

variable {escape : Char → List Char} {fields done : List (String × Json)}

theorem ReadsField.mono {m : Nat} {part : List Char} {field : String × Json}
    (h : ReadsField l escape n part field) (le : n ≤ m) : ReadsField l escape m part field := by
  obtain ⟨cs, text, reads⟩ := h
  exact ⟨cs, text, reads.mono le⟩

theorem resume?_colon (h : due.step? .colon = some (.value frames)) :
    resume? due (l.colon ++ rest) = resume? (.value frames) rest := by
  have colon (rest : List Char) : resume? due (':' :: rest) = resume? (.value frames) rest := by
    rw [resume?_token (t := .colon) rfl rfl, h]
    rfl
  cases l with
  | compact => exact colon rest
  | indented => exact (colon (' ' :: rest)).trans (resume?_space rfl)

theorem moves_field {field : String × Json} {part : List Char} (escapes : Escapes escape)
    (h : ReadsField l escape n part field)
    (key : ∀ k, due.step? (.string k) = some (.colon done k frames))
    (few : frames.length + (n + 1) ≤ nestingLimit) :
    Moves due part (.next field.2 (.object done field.1 :: frames)) := by
  obtain ⟨cs, rfl, reads⟩ := h
  intro rest ended
  change resume? due ('"' :: (field.1.toList.flatMap escape ++ ['"']) ++ l.colon ++ cs ++ rest) = _
  simp only [List.append_assoc, List.cons_append, List.nil_append]
  rw [resume?_token rfl (read?_quoted escapes field.1 _), key, Option.bind_some, resume?_colon rfl]
  exact reads _ _ awaits_value (by rw [List.length_cons]; omega) rest ended

/-- The fields of an object are read one after the other, behind those that are already there. -/
theorem runs_fields {parts : List (List Char)} (escapes : Escapes escape)
    (h : List.Forall₂ (ReadsField l escape n) parts fields) (present : parts ≠ [])
    (key : ∀ k, due.step? (.string k) = some (.colon done k frames))
    (few : frames.length + (n + 1) ≤ nestingLimit)
    (unique : (Fields.keys (done ++ fields)).Nodup) :
    ∃ k j before, Runs due parts (.next j (.object before k :: frames)) ∧
      Fields.put k j before = done ++ fields := by
  induction h generalizing due done with
  | nil => exact absurd rfl present
  | @cons part field parts fields reads others ih =>
    have moves := moves_field escapes reads key few
    have new : Fields.put field.1 field.2 done = done ++ [field] := by
      refine Fields.put_of_not_mem fun member => ?_
      rw [Fields.keys, List.map_append] at unique
      exact (List.nodup_append.mp unique).2.2 _ member _ List.mem_cons_self rfl
    cases parts with
    | nil =>
      cases others
      exact ⟨field.1, field.2, done, .last moves, new⟩
    | cons part' parts =>
      have key (k : String) : (Due.key (done ++ [field]) frames).step? (.string k) =
          some (.colon (done ++ [field]) k frames) := rfl
      obtain ⟨k, j, before, run, same⟩ :=
        ih (List.cons_ne_nil _ _) key (by rwa [List.append_cons] at unique)
      refine ⟨k, j, before, .more moves (by rw [Due.step?, new]) run, ?_⟩
      rw [same, ← List.append_cons]

theorem reads_object {parts : List (List Char)} (escapes : Escapes escape)
    (h : List.Forall₂ (ReadsField l escape n) parts fields)
    (unique : (Fields.keys fields).Nodup) :
    Reads (n + 1) (l.container depth '{' '}' parts) (.object fields) := by
  intro due frames awaits few
  have opens (rest : List Char) :
      resume? due ('{' :: rest) = resume? (.firstKey frames) rest := by
    have room : frames.length < nestingLimit := by omega
    rw [resume?_token (t := .openObject) rfl rfl, awaits .openObject nofun, begin?, if_pos room]
    rfl
  cases parts with
  | nil =>
    cases h
    intro rest _
    change resume? due ('{' :: '}' :: rest) = _
    rw [opens, resume?_token (t := .closeObject) rfl rfl]
    rfl
  | cons part parts =>
    have key (k : String) :
        (Due.firstKey frames).step? (.string k) = some (.colon [] k frames) := rfl
    obtain ⟨k, j, before, run, same⟩ :=
      runs_fields escapes h (List.cons_ne_nil _ _) key few unique
    refine run.container opens (fun rest => ?_) rfl
    rw [resume?_token (t := .closeObject) rfl rfl, Due.step?, same]
    rfl

end JsonQuery.Json
