import JsonQuery.Proofs.Parse.Complexity
import JsonQuery.Proofs.Parse.Context
import JsonQuery.Proofs.Parse.Viability
import JsonQuery.Proofs.Token.Spelling

/-! Which token sequences are expressions for the reader. What it accepts is an expression by the
grammar; for the converse the grammar is followed, and every phrase is read where it is looked
for. -/
namespace JsonQuery.Parse

variable {cap : Nat} {t : Token} {frames : List Frame} {held : Operand} {w : List Token}

/-- The reader has an operand, and what is open around it is what was open around some
constructs. -/
def Leaves (frames : List Frame) (s : State) : Prop :=
  ∃ rest held, s = .operator rest held ∧ enclosures rest = enclosures frames

/-- The reader is ready for the last operand of a construct. -/
def Opens (frames : List Frame) (s : State) : Prop :=
  ∃ p rest, s = .operand (.pending p :: rest) ∧ enclosures rest = enclosures frames

theorem step_of_extend (binds : 0 < t.kind.bindingPower) {post : State → Prop}
    (taken : ∀ rest r, enclosures rest = enclosures frames →
      Ensures post IsTooComplex (takeExtend t rest r)) :
    Ensures post IsTooComplex (step cap (.operator frames held) t) := by
  rw [step_of_binds binds]
  exact settle_ensures.bind fun r kept => taken r.1 r.2 kept.1

theorem settle_closer {e : Enclosure} {outer : List Frame}
    (same : enclosures frames = e :: enclosures outer) :
    Ensures (Exposes e fun rest _ => enclosures rest = enclosures outer) IsTooComplex
      (settle cap 0 frames held) := by
  apply settle_ensures.mono
  rintro ⟨rest, r⟩ ⟨kept, firm⟩
  rw [same] at kept
  obtain rfl | ⟨e', rest, rfl⟩ := firm.grounded.eq_nil_or
  · cases kept
  · obtain ⟨rfl, below⟩ := List.cons.inj kept
    exact ⟨rest, rfl, below⟩

theorem takeStart_atom (atom : t.IsAtom) :
    ∃ x, x.depth = 1 ∧ takeStart t frames = .ok (.operator frames (.leaf x)) := by
  rw [Token.IsAtom] at atom
  unfold takeStart
  cases kind : t.kind <;> rw [kind] at atom <;> try cases atom
  · exact ⟨_, rfl, rfl⟩
  · obtain ⟨n, value⟩ := Option.isSome_iff_exists.mp ((Number.isSome_ofLiteral?_iff _).mpr atom)
    dsimp only
    rw [value]
    exact ⟨_, rfl, rfl⟩
  · exact ⟨_, rfl, rfl⟩

theorem kind_ne_of_isAtom (atom : t.IsAtom) : t.kind ≠ .rightBracket := by
  intro closes
  rw [Token.IsAtom, closes] at atom
  exact atom

theorem step_atom (atom : t.IsAtom) :
    Ensures (Leaves frames) IsTooComplex (step cap (.operand frames) t) := by
  apply step_of_start (kind_ne_of_isAtom atom)
  obtain ⟨x, -, taken⟩ := @takeStart_atom t frames atom
  rw [taken]
  exact ⟨frames, _, rfl, rfl⟩

theorem step_sign (sign : t.IsPrefix) :
    Ensures (Opens frames) IsTooComplex (step cap (.operand frames) t) := by
  unfold Token.IsPrefix at sign
  apply step_of_start
  · intro kind
    simp [kind] at sign
  · rcases sign with kind | kind | kind
    all_goals
      simp only [takeStart, kind]
      exact ⟨_, frames, rfl, rfl⟩

theorem takeExtend_join (op : t.IsInfix) (spelled : Spelled t.kind t.text) :
    Ensures (Opens frames) IsTooComplex (takeExtend t frames held) := by
  unfold Token.IsInfix at op
  unfold takeExtend
  cases kind : t.kind <;> rw [kind] at op spelled <;> try cases op
  case dot | slice | filter => exact ⟨_, frames, rfl, rfl⟩
  case comparison =>
    obtain ⟨op, symbol⟩ := spelled trivial fun _ => op
    dsimp only
    rw [symbol]
    exact ⟨_, frames, rfl, rfl⟩
  all_goals
    obtain ⟨op, symbol⟩ := spelled trivial (by simp)
    dsimp only
    rw [symbol]
    exact ⟨_, frames, rfl, rfl⟩

theorem step_join (op : t.IsInfix) (spelled : Spelled t.kind t.text) :
    Ensures (Opens frames) IsTooComplex (step cap (.operator frames held) t) := by
  apply step_of_extend
  · unfold Token.IsInfix at op
    cases kind : t.kind <;> simp [kind, TokenKind.bindingPower] at op ⊢
  · intro rest r same
    apply (takeExtend_join op spelled).mono
    rintro _ ⟨p, _, rfl, kept⟩
    exact ⟨p, _, rfl, kept.trans same⟩

theorem step_leftBracket (kind : t.kind = .leftBracket) :
    Ensures (fun s => ∃ object rest, s = .operand (.enclosing (.brackets object t.span) :: rest) ∧
      enclosures rest = enclosures frames) IsTooComplex (step cap (.operator frames held) t) := by
  apply step_of_extend
  · simp [kind, TokenKind.bindingPower]
  · intro rest r same
    rw [takeExtend, kind]
    exact ⟨r, rest, rfl, same⟩

/-- A phrase that is followed by the closing token of what is around it. -/
theorem steps_closer {e : Enclosure} {s : State} {outer : List Frame}
    (inner : Ensures (Leaves (.enclosing e :: outer)) IsTooComplex (steps cap s w))
    (closes : t.kind = e.closer) :
    Ensures (Leaves outer) IsTooComplex (steps cap s (w ++ [t])) := by
  rw [steps_append]
  apply inner.bind
  rintro _ ⟨rest, held, rfl, same⟩
  rw [steps_singleton]
  apply (step_of_closes closes (settle_closer same)).mono
  rintro _ ⟨rest, r, made, kept, _, rfl⟩
  exact ⟨rest, made, rfl, kept⟩

/-- A colon is read as the operator of a slice or as the sign of one that leaves out its first
bound. -/
theorem step_slice (kind : t.kind = .slice) (s : State) :
    Ensures (fun s' => ∃ first rest, s' = .operand (.pending (.bound first t.span) :: rest))
      IsTooComplex (step cap s t) := by
  cases s with
  | operand frames =>
    apply step_of_start
    · simp [kind]
    · simp only [takeStart, kind]
      exact ⟨_, _, rfl⟩
  | operator frames held =>
    apply step_of_extend
    · simp [kind, TokenKind.bindingPower]
    · intro rest r same
      rw [takeExtend, kind]
      exact ⟨_, _, rfl⟩

/-- A name is no obstacle under a cap that is high enough. -/
theorem step_name (kind : t.kind = .identifier) (room : frames.length < cap) :
    ∃ held, step cap (.operand frames) t = .ok (.operator frames held) := by
  have other : ¬Omits t frames := by simp [Omits, kind]
  rw [step, approach_of_not_omits other, if_neg (Nat.not_le.mpr room)]
  refine ⟨.leaf (.identifier t.text t.span), ?_⟩
  change takeStart t frames = _
  simp only [takeStart, kind]

/-- A closing bracket takes the place of an end bound. -/
theorem step_unbounded {first object : Operand} {span span' : Span} {outer : List Frame}
    (kind : t.kind = .rightBracket)
    (same : enclosures frames = .brackets object span :: enclosures outer) :
    Ensures (Leaves outer) IsTooComplex
      (step cap (.operand (.pending (.bound first span') :: frames)) t) := by
  have closes : t.kind = (Enclosure.brackets object span).closer := kind
  have approached : Ensures (fun action => ∃ rest r,
      action = .close (.brackets object span) rest r ∧ enclosures rest = enclosures outer)
      IsTooComplex
      (approach cap t (.operand (.pending (.bound first span') :: frames))) := by
    rw [approach_of_omits kind]
    apply (complete_ensures _).bind
    intro made _
    exact approachOperator_of_closes closes (settle_closer same)
  apply approached.bind
  rintro _ ⟨rest, r, rfl, kept⟩
  apply (take_of_closes _ rest r).mono
  rintro _ ⟨made, _, rfl⟩
  exact ⟨rest, made, rfl, kept⟩

/-- The token sequences of a sort can be read where they are looked for. -/
def Reads (w : List Token) : Phrase → Prop
  | .bracketed => ∀ (cap : Nat) (frames : List Frame) (object : Operand) (span : Span) (c : Token),
      c.kind = .rightBracket → Ensures (Leaves frames) IsTooComplex
        (steps cap (.operand (.enclosing (.brackets object span) :: frames)) (w ++ [c]))
  | _ => ∀ (cap : Nat) (frames : List Frame),
      Ensures (Leaves frames) IsTooComplex (steps cap (.operand frames) w)

/-- If a name could follow, then the colon belongs to the constructs that were open before. That the
name itself might be too much for the cap is avoided by a higher one. -/
theorem reads_unbounded {name : Token} (slice : t.kind = .slice) (kind : name.kind = .identifier)
    (named : Reads (w ++ [t, name]) .expression) : Reads (w ++ [t]) .bracketed := by
  have split : w ++ [t, name] = w ++ [t] ++ [name] := by simp
  intro cap frames object span c closes
  rw [steps_append]
  cases read : steps cap (.operand (.enclosing (.brackets object span) :: frames)) (w ++ [t]) with
  | error e =>
    have failed := named cap (.enclosing (.brackets object span) :: frames)
    rw [split, steps_append, read] at failed
    exact failed
  | ok s =>
    obtain ⟨first, rest, rfl⟩ : ∃ first rest,
        s = .operand (.pending (.bound first t.span) :: rest) := by
      rw [steps_append] at read
      obtain ⟨s', _, stepped⟩ := bind_eq_ok.mp read
      rw [steps_singleton] at stepped
      have sliced : Ensures _ _ (step cap s' t) := step_slice slice s'
      rw [stepped] at sliced
      exact sliced
    let frames' := Frame.pending (.bound first t.span) :: rest
    let cap' := max cap (frames'.length + 1)
    have again := steps_of_le (Nat.le_max_left _ _ : cap ≤ cap') read
    obtain ⟨held, stepped⟩ := step_name kind (Nat.le_max_right _ _ : frames'.length < cap')
    have left := named cap' (.enclosing (.brackets object span) :: frames)
    rw [split, steps_append, again] at left
    change Ensures _ _ (steps cap' (.operand frames') [name]) at left
    rw [steps_singleton, stepped] at left
    obtain ⟨_, _, same, kept⟩ := left
    cases same
    change Ensures _ _ (steps cap (.operand frames') [c])
    rw [steps_singleton]
    exact step_unbounded closes kept

theorem reads_of_derives {p : Phrase} (h : Derives p w)
    (spelled : ∀ t ∈ w, Spelled t.kind t.text) : Reads w p := by
  induction h with
  | alone _ ih => exact ih spelled
  | @join u w t _ op _ ihu ihw =>
    simp only [List.mem_append, List.mem_cons] at spelled
    intro cap frames
    rw [steps_append]
    apply (ihu (fun t member => spelled t (.inl member)) cap frames).bind
    rintro _ ⟨rest, held, rfl, same⟩
    rw [steps_cons]
    apply (step_join op (spelled t (.inr (.inl rfl)))).bind
    rintro _ ⟨p, rest', rfl, same'⟩
    apply (ihw (fun t member => spelled t (.inr (.inr member))) cap _).mono
    rintro _ ⟨last, held, rfl, same''⟩
    exact ⟨last, held, rfl, same''.trans (same'.trans same)⟩
  | bare _ ih => exact ih spelled
  | signed sign _ ih =>
    intro cap frames
    rw [steps_cons]
    apply (step_sign sign).bind
    rintro _ ⟨p, rest, rfl, same⟩
    apply (ih (fun t member => spelled t (.tail _ member)) cap _).mono
    rintro _ ⟨last, held, rfl, same'⟩
    exact ⟨last, held, rfl, same'.trans same⟩
  | atom atom =>
    intro cap frames
    rw [steps_singleton]
    exact step_atom atom
  | group opens _ closes ih =>
    intro cap frames
    rw [List.cons_append, steps_cons]
    apply (step_leftParen opens).bind
    rintro _ rfl
    exact steps_closer (ih (fun t member => spelled t (by simp [member])) cap _) closes
  | @index u w t c _ opens _ closes ihu ihw =>
    intro cap frames
    rw [List.append_assoc, List.cons_append, steps_append]
    apply (ihu (fun t member => spelled t (by simp [member])) cap frames).bind
    rintro _ ⟨rest, held, rfl, same⟩
    rw [steps_cons]
    apply (step_leftBracket opens).bind
    rintro _ ⟨object, rest', rfl, same'⟩
    apply (ihw (fun t member => spelled t (by simp [member])) cap rest' object t.span c closes).mono
    rintro _ ⟨last, held, rfl, same''⟩
    exact ⟨last, held, rfl, same''.trans (same'.trans same)⟩
  | place _ ih =>
    intro cap frames object span c closes
    exact steps_closer (ih spelled cap _) closes
  | unbounded slice kind _ ih =>
    apply reads_unbounded slice kind
    apply ih
    intro u member
    rw [List.append_cons, List.mem_append] at member
    rcases member with before | last
    · exact spelled u before
    · intro symbolic
      rw [List.mem_singleton.mp last, kind] at symbolic
      cases symbolic

/-- An expression is accepted unless the cap is too low for it. -/
theorem run_of_derives {eof : Token} (h : Derives .expression w)
    (spelled : ∀ t ∈ w, Spelled t.kind t.text) :
    Ensures (fun _ => True) IsTooComplex (run cap (.ok eof) w (.operand [])) := by
  rw [run_eq_steps]
  apply (reads_of_derives h spelled cap []).bind
  rintro _ ⟨rest, held, rfl, same⟩
  apply settle_ensures.bind
  rintro ⟨rest', r⟩ ⟨kept, firm⟩
  obtain rfl | ⟨e, below, rfl⟩ := firm.grounded.eq_nil_or
  · trivial
  · cases kept.trans same

/-- A text that consists of tokens is accepted, under a cap above their number, if they form an
expression by the grammar, and otherwise it is not. -/
theorem parse_accepts_iff {source : String} {cap : Nat} {eof : Token}
    (lexed : (Scan.of source).last = .ok eof) (room : (Scan.of source).tokens.length < cap) :
    (∃ e, Expr.parse source cap = .ok e) ↔ Derives .expression (Scan.of source).tokens := by
  rw [Expr.parse, ofScan, lexed]
  constructor
  · rintro ⟨e, accepted⟩
    exact derives_of_run accepted
  · intro derived
    obtain ⟨e, accepted, _⟩ := run_eq_ok_of_room room
      (run_of_derives derived fun t member => Scan.spelled_of_mem member)
    exact ⟨e, accepted⟩

/-- A slice without its last bound, whose items are filtered. -/
def filteredTail : List Token :=
  [⟨.identifier, "x", ⟨0, 1⟩⟩, ⟨.leftBracket, "[", ⟨1, 1⟩⟩, ⟨.number, "1", ⟨2, 1⟩⟩,
    ⟨.slice, ":", ⟨3, 1⟩⟩, ⟨.rightBracket, "]", ⟨4, 1⟩⟩, ⟨.filter, "where", ⟨6, 5⟩⟩,
    ⟨.not, "not", ⟨12, 3⟩⟩, ⟨.identifier, "y", ⟨16, 1⟩⟩]

theorem parse_accepts_iff_filteredTail :
    (Scan.of "x[1:] where not y").last = .ok ⟨.eof, "", ⟨17, 0⟩⟩ ∧
      (Scan.of "x[1:] where not y").tokens.length < 9 ∧
      ((∃ e, Expr.parse "x[1:] where not y" 9 = .ok e) ↔ Derives .expression filteredTail) ∧
      Derives .expression filteredTail := by
  have scanned : (Scan.of "x[1:] where not y").tokens = filteredTail := by with_unfolding_all rfl
  have lexed : (Scan.of "x[1:] where not y").last = .ok ⟨.eof, "", ⟨17, 0⟩⟩ := by
    with_unfolding_all rfl
  have room : (Scan.of "x[1:] where not y").tokens.length < 9 := by rw [scanned]; decide
  refine ⟨lexed, room, scanned ▸ parse_accepts_iff lexed room, ?_⟩
  have name (text : String) (span : Span) : Derives .unit [⟨.identifier, text, span⟩] :=
    .bare (.atom trivial)
  have first : Derives .unit [⟨.number, "1", ⟨2, 1⟩⟩] := by
    refine .bare (.atom ?_)
    change "1".toList.count '.' ≤ 1
    decide
  have bounds : Derives .bracketed ([⟨.number, "1", ⟨2, 1⟩⟩] ++ [⟨.slice, ":", ⟨3, 1⟩⟩]) :=
    .unbounded rfl rfl (.join first trivial (.alone (name "last" ⟨4, 0⟩)))
  have object : Derives .operand [⟨.identifier, "x", ⟨0, 1⟩⟩] := .atom trivial
  have items : Derives .operand (filteredTail.take 5) := .index object rfl bounds rfl
  exact .join (.bare items) trivial (.alone (.signed (.inl rfl) (name "y" ⟨16, 1⟩)))

end JsonQuery.Parse
