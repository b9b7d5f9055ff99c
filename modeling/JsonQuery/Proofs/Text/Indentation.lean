import JsonQuery.Text.Layout
import Mathlib.Algebra.GroupWithZero.Nat
import Mathlib.Data.List.Forall2

/-! Text with string literals and brackets in it, read from left to right. Where a character stands
tells whether a blank belongs to the layout and how far a line has to be indented. A text in two
layouts is made of pieces that differ in their layout only, and pieces can be put together. -/
namespace JsonQuery.Text

/-- A character may stand between string literals or in one, and there it may be escaped. -/
inductive Zone where
  | outside
  | literal
  | escaped
deriving DecidableEq

/-- Where a character stands, and how many containers are open around it. -/
structure Place where
  zone : Zone
  opened : Nat

def opens (c : Char) : Bool := c == '[' || c == '{'

def closes (c : Char) : Bool := c == ']' || c == '}'

def isLayout (c : Char) : Bool := c == ' ' || c == '\n'

namespace Place

def start : Place := ⟨.outside, 0⟩

def next (p : Place) (c : Char) : Place :=
  match p.zone with
  | .outside =>
    if c = '"' then ⟨.literal, p.opened⟩
    else if opens c then ⟨.outside, p.opened + 1⟩
    else if closes c then ⟨.outside, p.opened - 1⟩
    else p
  | .literal =>
    if c = '"' then ⟨.outside, p.opened⟩
    else if c = '\\' then ⟨.escaped, p.opened⟩
    else p
  | .escaped => ⟨.literal, p.opened⟩

def after (p : Place) (cs : List Char) : Place := cs.foldl next p

/-- The text without the layout between its string literals. -/
def squeeze (p : Place) : List Char → List Char
  | [] => []
  | c :: cs =>
    if p.zone = .outside ∧ isLayout c then squeeze (p.next c) cs
    else c :: squeeze (p.next c) cs

/-- The number of containers open around a character. One that closes a container stands outside
of it. -/
def level (p : Place) (c : Char) : Nat := if closes c then p.opened - 1 else p.opened

/-- A line begins with two spaces for each container that is open at its first other character. -/
def Indents (p : Place) (line : List Char) : Prop :=
  ∃ spaces c rest, line = spaces ++ c :: rest ∧ (∀ s ∈ spaces, s = ' ') ∧ isLayout c = false ∧
    spaces.length = 2 * (p.after spaces).level c

/-- Lines are broken outside of string literals only, and each new line is indented. -/
def Laid (p : Place) (cs : List Char) : Prop :=
  ∀ before later, cs = before ++ '\n' :: later →
    (p.after before).zone = .outside ∧ (p.after (before ++ ['\n'])).Indents later

/-- A line of a text stands between two line breaks, or where the text begins or ends. -/
structure IsLine (before line later : List Char) : Prop where
  begins : before = [] ∨ ∃ earlier, before = earlier ++ ['\n']
  unbroken : '\n' ∉ line
  ends : later = [] ∨ ∃ others, later = '\n' :: others

variable {p q r : Place} {c : Char} {as bs cs ds before line later : List Char}

theorem opens_iff : opens c = true ↔ c = '[' ∨ c = '{' := by
  rw [opens, Bool.or_eq_true, beq_iff_eq, beq_iff_eq]

theorem closes_iff : closes c = true ↔ c = ']' ∨ c = '}' := by
  rw [closes, Bool.or_eq_true, beq_iff_eq, beq_iff_eq]

theorem after_append (p : Place) (as bs : List Char) : p.after (as ++ bs) = (p.after as).after bs :=
  List.foldl_append

theorem squeeze_append (p : Place) (as bs : List Char) :
    p.squeeze (as ++ bs) = p.squeeze as ++ (p.after as).squeeze bs := by
  induction as generalizing p with
  | nil => rfl
  | cons a as ih =>
    rw [List.cons_append, squeeze, squeeze, ih]
    split <;> rfl

theorem length_squeeze_le (p : Place) (cs : List Char) : (p.squeeze cs).length ≤ cs.length := by
  induction cs generalizing p with
  | nil => exact Nat.le_refl 0
  | cons c cs ih =>
    rw [squeeze]
    split
    · exact Nat.le_succ_of_le (ih _)
    · exact Nat.succ_le_succ (ih _)

theorem Indents.append (h : p.Indents as) (bs : List Char) : p.Indents (as ++ bs) := by
  obtain ⟨spaces, c, rest, rfl, blank, visible, count⟩ := h
  exact ⟨spaces, c, rest ++ bs, by simp, blank, visible, count⟩

/-- No blanks lead from the end of a line to what is neither a blank nor a line break. -/
theorem IsLine.later_ne {more rest : List Char} (isLine : IsLine before line later)
    (blank : ∀ s ∈ more, s = ' ') (visible : isLayout c = false) : later ≠ more ++ c :: rest := by
  rintro rfl
  rcases isLine.ends with none | ⟨others, broken⟩
  · simp at none
  · cases more with
    | nil =>
      rw [(List.cons.inj broken).1] at visible
      exact absurd visible (by decide)
    | cons s more =>
      have space := blank s List.mem_cons_self
      rw [(List.cons.inj broken).1] at space
      exact absurd space (by decide)

/-- What indents a text indents its first line. -/
theorem Indents.of_append (h : p.Indents (line ++ later)) (isLine : IsLine before line later) :
    p.Indents line := by
  obtain ⟨spaces, c, rest, split, blank, visible, count⟩ := h
  rcases List.append_eq_append_iff.mp split with ⟨more, rfl, others⟩ | ⟨more, rfl, others⟩
  · have blank' : ∀ s ∈ more, s = ' ' := fun s member => blank s (List.mem_append_right _ member)
    exact absurd others (isLine.later_ne blank' visible)
  · cases more with
    | nil => exact absurd others.symm (isLine.later_ne (List.forall_mem_nil _) visible)
    | cons d more =>
      obtain ⟨rfl, -⟩ := List.cons.inj others
      exact ⟨spaces, c, more, rfl, blank, visible, count⟩

theorem Laid.append (first : p.Laid as) (second : (p.after as).Laid bs) : p.Laid (as ++ bs) := by
  intro before later split
  rcases List.append_eq_append_iff.mp split with ⟨more, rfl, rest⟩ | ⟨more, rfl, rest⟩
  · rw [List.append_assoc, after_append, after_append]
    exact second more later rest
  · cases more with
    | nil =>
      rw [List.append_nil] at second
      rw [after_append]
      exact second [] later rest.symm
    | cons c more =>
      obtain ⟨rfl, rfl⟩ := List.cons.inj rest
      obtain ⟨outside, indents⟩ := first before more rfl
      exact ⟨outside, indents.append bs⟩

theorem laid_of_not_mem (unbroken : '\n' ∉ cs) : p.Laid cs := by
  rintro before later rfl
  simp at unbroken

/-- In a text that begins indented and is laid out, every line is indented. -/
theorem Laid.indents (laid : p.Laid (before ++ line ++ later))
    (first : p.Indents (before ++ line ++ later)) (isLine : IsLine before line later) :
    (p.after before).Indents line := by
  rcases isLine.begins with rfl | ⟨earlier, rfl⟩
  · exact Indents.of_append first isLine
  · have indents := (laid earlier (line ++ later) (by simp)).2
    exact indents.of_append isLine

/-- A text and the same text in a wider layout, from one place up to another. -/
structure Piece (p q : Place) (bare full : List Char) : Prop where
  squeezed : p.squeeze full = bare
  ends : p.after full = q
  laid : p.Laid full

namespace Piece

theorem nil (p : Place) : Piece p p [] [] := ⟨rfl, rfl, laid_of_not_mem (by simp)⟩

theorem append (first : Piece p q as bs) (second : Piece q r cs ds) :
    Piece p r (as ++ cs) (bs ++ ds) := by
  constructor
  · rw [squeeze_append, first.squeezed, first.ends, second.squeezed]
  · rw [after_append, first.ends, second.ends]
  · exact first.laid.append (first.ends.symm ▸ second.laid)

/-- A character that is no layout stays, and it is no line break anywhere. -/
theorem single (kept : p.zone = .outside → isLayout c = false) (unbroken : c ≠ '\n') :
    Piece p (p.next c) [c] [c] := by
  constructor
  · rw [squeeze, if_neg (by simp_all)]
    rfl
  · rfl
  · exact laid_of_not_mem (by simpa using unbroken.symm)

/-- What is the same in both layouts has no line breaks. -/
theorem not_mem (piece : Piece p q cs cs) : '\n' ∉ cs := by
  intro member
  obtain ⟨before, later, rfl⟩ := List.append_of_mem member
  have outside := (piece.laid before later rfl).1
  have kept := congrArg List.length piece.squeezed
  have shorter := length_squeeze_le p before
  have shorter' := length_squeeze_le ((p.after before).next '\n') later
  rw [squeeze_append, squeeze, if_pos ⟨outside, rfl⟩, List.length_append, List.length_append,
    List.length_cons] at kept
  omega

/-- Characters that lead nowhere else. -/
theorem of_forall (stays : ∀ c ∈ cs, Piece p p [c] [c]) : Piece p p cs cs := by
  induction cs with
  | nil => exact nil p
  | cons c cs ih =>
    obtain ⟨first, rest⟩ := List.forall_mem_cons.mp stays
    exact first.append (ih rest)

end Piece

def within (n : Nat) : Place := ⟨.outside, n⟩

theorem Piece.space (n : Nat) : Piece (within n) (within n) [] [' '] :=
  ⟨rfl, rfl, laid_of_not_mem (by decide)⟩

theorem Piece.opening (n : Nat) (h : opens c = true) :
    Piece (within n) (within (n + 1)) [c] [c] := by
  obtain rfl | rfl := opens_iff.mp h
  · exact .single (c := '[') (fun _ => rfl) (by decide)
  · exact .single (c := '{') (fun _ => rfl) (by decide)

theorem Piece.closing (n : Nat) (h : closes c = true) :
    Piece (within (n + 1)) (within n) [c] [c] := by
  obtain rfl | rfl := closes_iff.mp h
  · exact .single (c := ']') (fun _ => rfl) (by decide)
  · exact .single (c := '}') (fun _ => rfl) (by decide)

/-- A character that is neither layout nor a quote nor a bracket. -/
def isInert (c : Char) : Bool := !(isLayout c || c == '"' || opens c || closes c)

theorem Piece.inert (n : Nat) (h : isInert c = true) : Piece (within n) (within n) [c] [c] := by
  simp only [isInert, Bool.not_eq_true', Bool.or_eq_false_iff, beq_eq_false_iff_ne] at h
  obtain ⟨⟨⟨visible, unquoted⟩, notOpening⟩, notClosing⟩ := h
  have stays : (within n).next c = within n := by
    simp [next, within, unquoted, notOpening, notClosing]
  have piece : Piece (within n) ((within n).next c) [c] [c] := by
    refine .single (fun _ => visible) ?_
    rintro rfl
    exact absurd visible (by decide)
  rwa [stays] at piece

theorem after_spaces (n count : Nat) : (within n).after (List.replicate count ' ') = within n := by
  induction count with
  | zero => rfl
  | succ count ih => exact ih

theorem squeeze_spaces (n count : Nat) : (within n).squeeze (List.replicate count ' ') = [] := by
  induction count with
  | zero => rfl
  | succ count ih => exact ih

/-- A piece on a line of its own. -/
theorem Piece.onLine {n : Nat} (piece : Piece (within n) q as (c :: cs))
    (visible : isLayout c = false) :
    Piece (within n) q as (Layout.indented.newline ((within n).level c) ++ c :: cs) := by
  let spaces := List.replicate (2 * (within n).level c) ' '
  have stays : (within n).after spaces = within n := after_spaces n _
  have laid : (within n).Laid (spaces ++ c :: cs) := by
    apply Laid.append
    · exact laid_of_not_mem (by simp [spaces])
    · rw [stays]
      exact piece.laid
  constructor
  · change (within n).squeeze (spaces ++ c :: cs) = as
    rw [squeeze_append, stays, squeeze_spaces, piece.squeezed, List.nil_append]
  · change (within n).after (spaces ++ c :: cs) = q
    rw [after_append, stays, piece.ends]
  · intro before later split
    cases before with
    | nil =>
      obtain ⟨-, rfl⟩ := List.cons.inj split
      refine ⟨rfl, spaces, c, cs, rfl, fun s => List.eq_of_mem_replicate, visible, ?_⟩
      change spaces.length = 2 * ((within n).after spaces).level c
      rw [stays, List.length_replicate]
    | cons b before =>
      obtain ⟨rfl, rest⟩ := List.cons.inj split
      exact laid before later rest

/-- A piece that stands for a whole value or field, and begins with what shows where it stands. -/
structure Whole (n : Nat) (bare full : List Char) : Prop extends
    Piece (within n) (within n) bare full where
  begins : ∃ c rest, full = c :: rest ∧ isLayout c = false ∧ closes c = false

/-- A text without strings, brackets and layout. -/
theorem Whole.inert (n : Nat) (present : cs ≠ []) (h : cs.all isInert = true) :
    Whole n cs cs := by
  rw [List.all_eq_true] at h
  refine ⟨.of_forall fun c member => .inert n (h c member), ?_⟩
  obtain ⟨c, rest, rfl⟩ := List.exists_cons_of_ne_nil present
  have first := h c List.mem_cons_self
  simp only [isInert, Bool.not_eq_true', Bool.or_eq_false_iff] at first
  exact ⟨c, rest, rfl, first.1.1.1, first.2⟩

theorem Whole.onLine {n : Nat} (whole : Whole n as bs) :
    Piece (within n) (within n) as (Layout.indented.newline n ++ bs) := by
  obtain ⟨piece, c, rest, rfl, visible, inner⟩ := whole
  have line := piece.onLine visible
  rwa [level, inner, if_neg (by decide)] at line

theorem Piece.items {n depth : Nat} {bares fulls : List (List Char)}
    (parts : List.Forall₂ (Whole n) bares fulls) :
    Piece (within n) (within n) (Layout.compact.items depth bares)
      (Layout.indented.items n fulls) := by
  induction parts with
  | nil => exact .nil _
  | @cons bare full bares fulls part parts ih =>
    cases parts with
    | nil => exact part.onLine
    | cons part' parts =>
      have comma : Piece (within n) (within n) [','] [','] := .inert n (by decide)
      exact part.onLine.append (comma.append ih)

/-- The parts of a container stand on lines of their own, and so does the bracket that closes it. -/
theorem Whole.container {n depth : Nat} {opening closing : Char} {bares fulls : List (List Char)}
    (opens : opens opening = true) (closes : closes closing = true)
    (parts : List.Forall₂ (Whole (n + 1)) bares fulls) :
    Whole n (Layout.compact.container depth opening closing bares)
      (Layout.indented.container n opening closing fulls) := by
  have first := Piece.opening n opens
  have last := Piece.closing n closes
  have visible : isLayout opening = false ∧ Text.closes opening = false := by
    obtain rfl | rfl := opens_iff.mp opens <;> decide
  have visible' : isLayout closing = false := by
    obtain rfl | rfl := closes_iff.mp closes <;> decide
  cases parts with
  | nil => exact ⟨first.append last, _, _, rfl, visible.1, visible.2⟩
  | cons part parts =>
    have lines : Piece (within (n + 1)) (within (n + 1)) (Layout.compact.items (depth + 1) _)
        (Layout.indented.items (n + 1) _) := .items (.cons part parts)
    have end' := last.onLine visible'
    rw [level, if_pos closes] at end'
    refine ⟨?_, _, _, rfl, visible.1, visible.2⟩
    simp only [Layout.container, List.append_assoc]
    exact first.append (lines.append end')

end Place

theorem count_newline (depth : Nat) : (Layout.indented.newline depth).count '\n' = 1 := by
  rw [Layout.newline, List.count_cons_self, List.count_replicate, if_neg (by decide)]

/-- There is a line break before each item. -/
theorem count_items (depth : Nat) (parts : List (List Char)) :
    (Layout.indented.items depth parts).count '\n' =
      (parts.map fun part => part.count '\n' + 1).sum := by
  induction parts with
  | nil => rfl
  | cons part parts ih =>
    cases parts with
    | nil => simp [Layout.items, count_newline, Nat.add_comm]
    | cons part' parts =>
      have comma : (',' :: Layout.indented.items depth (part' :: parts)).count '\n' = _ :=
        (List.count_cons_of_ne (by decide)).trans ih
      simp only [Layout.items, List.count_append, count_newline, comma, List.map_cons,
        List.sum_cons, Nat.add_comm 1]

/-- The brackets of a container that is not empty stand on lines of their own. -/
theorem count_container {depth : Nat} {opening closing : Char} {parts : List (List Char)}
    (present : parts ≠ []) (opens : opens opening = true) (closes : closes closing = true) :
    (Layout.indented.container depth opening closing parts).count '\n' =
      (parts.map fun part => part.count '\n' + 1).sum + 1 := by
  have unbroken : opening ≠ '\n' := by
    rintro rfl
    exact absurd opens (by decide)
  have unbroken' : closing ≠ '\n' := by
    rintro rfl
    exact absurd closes (by decide)
  obtain ⟨part, others, rfl⟩ := List.exists_cons_of_ne_nil present
  simp only [Layout.container, List.cons_append, List.append_assoc, List.count_append,
    List.count_cons_of_ne unbroken, List.count_cons_of_ne unbroken', List.count_nil, count_items,
    count_newline]

end JsonQuery.Text
