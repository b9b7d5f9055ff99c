import JsonQuery.Expr.Listing
import JsonQuery.Proofs.Interpretation.Visit

/-! Which node a visit fails at. Nodes can have the same span, so the span of a failure does not
tell. The rows of the listing are all different, and a visit does not care what the spans are, so a
node is found by visiting the expression with row numbers in the place of spans. -/
namespace JsonQuery

namespace Expr

variable {e a b : Expr} {start row : Nat} {span : Span}

/-- The expression with the number of its row in place of each node's span, in a listing that
already has a number of rows. -/
def numberedFrom (start : Nat) : Expr → Expr
  | literal value _ => literal value ⟨start, 0⟩
  | identifier name _ => identifier name ⟨start, 0⟩
  | unary op a _ => unary op (a.numberedFrom start) ⟨start + a.size, 0⟩
  | field a b _ =>
    field (a.numberedFrom start) (b.numberedFrom (start + a.size)) ⟨start + a.size + b.size, 0⟩
  | index a b _ =>
    index (a.numberedFrom start) (b.numberedFrom (start + a.size)) ⟨start + a.size + b.size, 0⟩
  | slice a b _ =>
    slice (a.numberedFrom start) (b.numberedFrom (start + a.size)) ⟨start + a.size + b.size, 0⟩
  | binary op a b _ =>
    binary op (a.numberedFrom start) (b.numberedFrom (start + a.size)) ⟨start + a.size + b.size, 0⟩
  | filter a b _ =>
    filter (a.numberedFrom start) (b.numberedFrom (start + a.size)) ⟨start + a.size + b.size, 0⟩

def numbered (e : Expr) : Expr := e.numberedFrom 0

/-- The node in a row of the listing has a certain span. -/
def RowAt (start : Nat) (e : Expr) (row : Nat) (span : Span) : Prop :=
  ∃ r, start ≤ row ∧ (e.rowsFrom start)[row - start]? = some r ∧ r.span = span

theorem RowAt.bounds (h : RowAt start e row span) : start ≤ row ∧ row < start + e.size := by
  obtain ⟨r, le, found, _⟩ := h
  obtain ⟨inside, _⟩ := List.getElem?_eq_some_iff.mp found
  rw [length_rowsFrom] at inside
  omega

theorem RowAt.unique {span' : Span} (h : RowAt start e row span) (h' : RowAt start e row span') :
    span = span' := by
  obtain ⟨r, _, found, rfl⟩ := h
  obtain ⟨r', _, found', rfl⟩ := h'
  rw [Option.some.inj (found.symm.trans found')]

/-- The rows of a subexpression stand somewhere among those of the whole. -/
theorem RowAt.within {before after : List Row} (h : RowAt (start + before.length) a row span)
    (parts : e.rowsFrom start = before ++ a.rowsFrom (start + before.length) ++ after) :
    RowAt start e row span := by
  obtain ⟨r, le, found, same⟩ := h
  refine ⟨r, by omega, ?_, same⟩
  obtain ⟨inside, _⟩ := List.getElem?_eq_some_iff.mp found
  rw [parts, List.append_assoc, List.getElem?_append_right (by omega),
    List.getElem?_append_left (by omega), ← found]
  congr 1
  omega

/-- The rows of the first subexpression come first. -/
theorem RowAt.first {after : List Row} (h : RowAt start a row span)
    (parts : e.rowsFrom start = a.rowsFrom start ++ after) : RowAt start e row span := by
  have placed : RowAt (start + ([] : List Row).length) a row span := h
  exact placed.within parts

/-- The rows of the second subexpression come next. -/
theorem RowAt.second {after : List Row} (h : RowAt (start + a.size) b row span)
    (parts : e.rowsFrom start = a.rowsFrom start ++ b.rowsFrom (start + a.size) ++ after) :
    RowAt start e row span := by
  have count : (a.rowsFrom start).length = a.size := length_rowsFrom a start
  have placed : RowAt (start + (a.rowsFrom start).length) b row span := by rwa [count]
  exact placed.within (by rwa [count])

/-- The row of the whole comes last. -/
theorem rowsFrom_eq_append (e : Expr) (start : Nat) :
    ∃ before children, e.rowsFrom start = before ++ [⟨e.label, children, e.span⟩] := by
  cases e with
  | literal value span | identifier name span => exact ⟨[], _, rfl⟩
  | unary op a span | field a b span | index a b span | slice a b span | binary op a b span
  | filter a b span => exact ⟨_, _, rfl⟩

theorem rowAt_last (e : Expr) (last : row + 1 = start + e.size) : RowAt start e row e.span := by
  obtain ⟨before, children, parts⟩ := e.rowsFrom_eq_append start
  have count := congrArg List.length parts
  rw [length_rowsFrom, List.length_append, List.length_singleton] at count
  have place : row - start = before.length := by omega
  refine ⟨⟨e.label, children, e.span⟩, by omega, ?_, rfl⟩
  rw [parts, place]
  simp

end Expr

namespace Interpretation

variable {ε α : Type} {i : Interpretation ε α}

/-- A filter does not look at places. When two conditions agree but for the places of failures, the
filters do so too. -/
def IgnoresPlaces (i : Interpretation ε α) : Prop :=
  ∀ (related : Located ε → Located ε → Prop) (items : α) (span span' : Span)
    (p q : α → Except (Located ε) α),
    (∀ cause, related ⟨cause, span⟩ ⟨cause, span'⟩) → (∀ item, Agree related (p item) (q item)) →
    Agree related (i.filter items span p) (i.filter items span' q)

/-- A failure has the same cause as another, which tells the row of the failure's node. -/
def Tells (start : Nat) (e : Expr) (f numbered : Located ε) : Prop :=
  numbered.cause = f.cause ∧ numbered.span.length = 0 ∧ e.RowAt start numbered.span.offset f.span

/-- With row numbers in place of spans a visit has the same result, and a failure tells its row. -/
theorem agree_numberedFrom (ignores : i.IgnoresPlaces) (e : Expr) (start : Nat) (ambient : α) :
    Agree (Tells start e) (i.meaning e ambient) (i.meaning (e.numberedFrom start) ambient) := by
  have first {e a : Expr} {after : List Row} {start : Nat}
      (parts : e.rowsFrom start = a.rowsFrom start ++ after) (f g : Located ε) :
      Tells start a f g → Tells start e f g :=
    fun h => ⟨h.1, h.2.1, h.2.2.first parts⟩
  have second {e a b : Expr} {after : List Row} {start : Nat}
      (parts : e.rowsFrom start = a.rowsFrom start ++ b.rowsFrom (start + a.size) ++ after)
      (f g : Located ε) : Tells (start + a.size) b f g → Tells start e f g :=
    fun h => ⟨h.1, h.2.1, h.2.2.second parts⟩
  have self (e : Expr) {start row : Nat} (last : row + 1 = start + e.size) (cause : ε) :
      Tells start e ⟨cause, e.span⟩ ⟨cause, ⟨row, 0⟩⟩ :=
    ⟨rfl, rfl, e.rowAt_last last⟩
  have two (a b : Expr) (start : Nat) :
      start + a.size + b.size + 1 = start + (a.size + b.size + 1) := by omega
  induction e generalizing start ambient with
  | literal value span => exact rfl
  | identifier name span => exact .locate (self (.identifier name span) rfl)
  | field a b span iha ihb =>
    apply ((iha start ambient).mono (first (List.append_assoc _ _ _))).bind
    intro object
    exact (ihb _ object).mono (second rfl)
  | index a b span iha ihb =>
    have here := self (.index a b span) (two a b start)
    apply ((iha start ambient).mono (first (List.append_assoc _ _ _))).bind
    intro object
    apply (Agree.locate here).bind
    intro _
    apply ((ihb _ ambient).mono (second rfl)).bind
    intro place
    exact .locate here
  | slice a b span iha ihb =>
    apply ((iha start ambient).mono (first (List.append_assoc _ _ _))).bind
    intro l
    apply ((ihb _ ambient).mono (second rfl)).bind
    intro r
    exact .locate (self (.slice a b span) (two a b start))
  | unary op a span ih =>
    apply ((ih start ambient).mono (first rfl)).bind
    intro operand
    exact .locate (self (.unary op a span) (Nat.add_assoc _ _ _))
  | binary op a b span iha ihb =>
    apply ((iha start ambient).mono (first (List.append_assoc _ _ _))).bind
    intro l
    apply ((ihb _ ambient).mono (second rfl)).bind
    intro r
    exact .locate (self (.binary op a b span) (two a b start))
  | filter a b span iha ihb =>
    apply ((iha start ambient).mono (first (List.append_assoc _ _ _))).bind
    intro items
    apply ignores
    · exact self (.filter a b span) (two a b start)
    · intro item
      exact (ihb _ item).mono (second rfl)

/-- The failures of a numbered visit are at rows of the expression. -/
theorem numberedFrom_ensures (ignores : i.IgnoresPlaces) (e : Expr) (start : Nat) (ambient : α) :
    Ensures (fun _ => True) (fun f => start ≤ f.span.offset ∧ f.span.offset < start + e.size)
      (i.meaning (e.numberedFrom start) ambient) := by
  have agree := agree_numberedFrom ignores e start ambient
  cases numbered : i.meaning (e.numberedFrom start) ambient with
  | ok r => trivial
  | error g =>
    rw [numbered] at agree
    cases plain : i.meaning e ambient with
    | ok r =>
      rw [plain] at agree
      exact agree.elim
    | error f =>
      rw [plain] at agree
      exact agree.2.2.bounds

def FailsAt (i : Interpretation ε α) (e : Expr) (ambient : α) (row : Nat) (f : Located ε) : Prop :=
  i.meaning e ambient = .error f ∧ i.meaning e.numbered ambient = .error ⟨f.cause, ⟨row, 0⟩⟩

/-- Every failure of a visit belongs to a row of the listing, and it has the span of that row. -/
theorem exists_failsAt (ignores : i.IgnoresPlaces) {e : Expr} {ambient : α} {f : Located ε}
    (failed : i.meaning e ambient = .error f) :
    ∃ row, i.FailsAt e ambient row f ∧ e.RowAt 0 row f.span := by
  obtain ⟨⟨cause, offset, length⟩, numbered, rfl, rfl, at_⟩ :=
    (agree_numberedFrom ignores e 0 ambient).exists_of_eq_error failed
  exact ⟨offset, ⟨failed, numbered⟩, at_⟩

end Interpretation
end JsonQuery
