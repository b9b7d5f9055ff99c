import JsonQuery.Proofs.Parse.Grammar
import JsonQuery.Proofs.Parse.Steps

/-! What the reader has taken is at every moment the beginning of an expression. The phrases that
are complete and those that are still open are followed along its steps, and at the end a single
expression is left. -/
namespace JsonQuery.Parse

variable {cap : Nat} {t : Token} {frames : List Frame} {held : Operand} {w : List Token}

/-- A construct that waits for an end bound was opened by a colon. -/
def Pending.OpenedBy (p : Pending) (t : Token) : Prop :=
  ∀ first span, p = .bound first span → t.kind = .slice

/-- The effects of a step on the open constructs. Those that wait for an operand come and go with
the powers of the operators, and only those that wait for a closing token are followed. -/
inductive Effect (t : Token) : State → State → Prop where
  | atom (frames : List Frame) (held : Operand) : t.IsAtom →
      Effect t (.operand frames) (.operator frames held)
  | sign (frames : List Frame) (p : Pending) : t.IsPrefix → p.OpenedBy t →
      Effect t (.operand frames) (.operand (.pending p :: frames))
  | group (frames : List Frame) : t.kind = .leftParen →
      Effect t (.operand frames) (.operand (.enclosing .group :: frames))
  | unbounded (first : Operand) (span : Span) (e : Enclosure) (frames rest : List Frame)
      (held : Operand) : t.kind = .rightBracket → t.kind = e.closer →
      enclosures frames = e :: enclosures rest →
      Effect t (.operand (.pending (.bound first span) :: frames)) (.operator rest held)
  | join (p : Pending) (frames rest : List Frame) (held : Operand) : t.IsInfix → p.OpenedBy t →
      enclosures rest = enclosures frames →
      Effect t (.operator frames held) (.operand (.pending p :: rest))
  | brackets (object : Operand) (span : Span) (frames rest : List Frame) (held : Operand) :
      t.kind = .leftBracket → enclosures rest = enclosures frames →
      Effect t (.operator frames held) (.operand (.enclosing (.brackets object span) :: rest))
  | close (e : Enclosure) (frames rest : List Frame) (last held : Operand) : t.kind = e.closer →
      enclosures frames = e :: enclosures rest →
      Effect t (.operator frames last) (.operator rest held)

theorem takeStart_effect {s : State} (h : takeStart t frames = .ok s) :
    Effect t (.operand frames) s := by
  unfold takeStart at h
  split at h <;> rename_i kind
  · cases h
    exact .atom _ _ (by simp [Token.IsAtom, kind])
  · cases h
    exact .atom _ _ (by simp [Token.IsAtom, kind])
  · split at h
    · rename_i n value
      cases h
      have valid : t.text.toList.count '.' ≤ 1 := by
        rw [← Number.isSome_ofLiteral?_iff, value, Option.isSome_some]
      exact .atom _ _ (by simpa [Token.IsAtom, kind] using valid)
    · cases h
  · cases h
    exact .group _ kind
  · cases h
    exact .sign _ _ (.inl kind) (by simp [Pending.OpenedBy])
  · cases h
    exact .sign _ _ (.inr (.inl kind)) (by simp [Pending.OpenedBy])
  · cases h
    exact .sign _ _ (.inr (.inr kind)) (fun _ _ _ => kind)
  · cases h
  · cases h
  · cases h
  · cases h
  · split at h <;> cases h

theorem takeExtend_effect {s : State} {first : Operand} {before : List Frame}
    (same : enclosures frames = enclosures before) (binds : 0 < t.kind.bindingPower)
    (h : takeExtend t frames held = .ok s) : Effect t (.operator before first) s := by
  unfold takeExtend at h
  split at h
  · rename_i kind
    cases h
    exact .join _ _ _ _ (by simp [Token.IsInfix, kind]) (by simp [Pending.OpenedBy]) same
  · rename_i kind
    cases h
    exact .brackets _ _ _ _ _ kind same
  · rename_i kind
    cases h
    exact .join _ _ _ _ (by simp [Token.IsInfix, kind]) (fun _ _ _ => kind) same
  · rename_i kind
    cases h
    exact .join _ _ _ _ (by simp [Token.IsInfix, kind]) (by simp [Pending.OpenedBy]) same
  · cases h
  · rename_i dot bracket slice filter paren
    split at h
    · rename_i op symbol
      cases h
      have lone : t.text ≠ "!" := by
        rintro text
        rw [text] at symbol
        cases symbol
      apply Effect.join _ _ _ _ _ (by simp [Pending.OpenedBy]) same
      unfold Token.IsInfix
      cases kind : t.kind <;> simp_all [TokenKind.bindingPower]
    · cases h

/-- After an operand, a token binds, or it closes the innermost construct that can be closed. -/
theorem approachOperator_cases {action : Action}
    (h : approachOperator cap t frames held = .ok action) :
    (0 < t.kind.bindingPower ∧ ∃ rest r, action = .extend rest r ∧
      enclosures rest = enclosures frames) ∨
    (∃ e rest r, action = .close e rest r ∧ t.kind = e.closer ∧
      enclosures frames = e :: enclosures rest) := by
  obtain ⟨⟨rest, r⟩, settled, acts⟩ := bind_eq_ok.mp h
  have same := (enclosures_of_settle settled).1
  dsimp only at acts
  split at acts
  · rename_i binds
    cases acts
    exact .inl ⟨binds, rest, r, rfl, same⟩
  · split at acts
    · split at acts
      · rename_i closes
        cases acts
        exact .inr ⟨_, _, r, rfl, closes, same.symm⟩
      · cases acts
    · cases acts

theorem step_effect {s s' : State} (h : step cap s t = .ok s') : Effect t s s' := by
  obtain ⟨action, approached, taken⟩ := bind_eq_ok.mp h
  cases s with
  | operand frames =>
    by_cases omits : Omits t frames
    · obtain ⟨kind, first, span, frames, rfl⟩ := omits
      rw [approach_of_omits kind] at approached
      obtain ⟨made, completed, approached⟩ := bind_eq_ok.mp approached
      obtain ⟨binds, _⟩ | ⟨e, rest, r, rfl, closes, same⟩ := approachOperator_cases approached
      · rw [kind] at binds
        cases binds
      · obtain ⟨held, closed, moved⟩ := bind_eq_ok.mp taken
        cases moved
        exact .unbounded _ _ e _ _ _ kind closes same
    · rw [approach_of_not_omits omits] at approached
      split at approached
      · cases approached
      · cases approached
        exact takeStart_effect taken
  | operator frames first =>
    obtain ⟨binds, rest, r, rfl, same⟩ | ⟨e, rest, r, rfl, closes, same⟩ :=
      approachOperator_cases approached
    · exact takeExtend_effect same binds taken
    · obtain ⟨held, closed, moved⟩ := bind_eq_ok.mp taken
      cases moved
      exact .close e _ _ _ _ closes same

/-- The tokens that opened some constructs, from the outermost one inwards. An expression stands
before an opening bracket, and a parenthesis is opened where a unit may follow. -/
inductive Opened : List Enclosure → List Token → Prop where
  | nil : Opened [] []
  | group (es : List Enclosure) (w u : List Token) (t : Token) : Opened es w → Awaits u →
      t.kind = .leftParen → Opened (.group :: es) (w ++ u ++ [t])
  | brackets (es : List Enclosure) (w u : List Token) (t : Token) (object : Operand) (span : Span) :
      Opened es w → Derives .expression u → t.kind = .leftBracket →
      Opened (.brackets object span :: es) (w ++ u ++ [t])

/-- What has been read is the opening of the open constructs, and then an expression or what awaits
a unit. After a colon that has no operand yet, the colon is the last token. -/
def Viable (w : List Token) : State → Prop
  | .operator frames _ => ∃ before u, w = before ++ u ∧ Opened (enclosures frames) before ∧
      Derives .expression u
  | .operand frames => ∃ before u, w = before ++ u ∧ Opened (enclosures frames) before ∧
      Awaits u ∧ ∀ first span rest, frames = .pending (.bound first span) :: rest →
        ∃ u' colon, u = u' ++ [colon] ∧ colon.kind = .slice

theorem viable_nil : Viable [] (.operand []) := ⟨[], [], rfl, .nil, .nil, by simp⟩

/-- What is between brackets and its closing bracket complete the expression before them. -/
theorem Opened.close {e : Enclosure} {es : List Enclosure} {before u : List Token}
    (opened : Opened (e :: es) before) (closes : t.kind = e.closer)
    (inner : e = .group → Derives .expression u) (bracketed : Derives .bracketed u) :
    ∃ before' u', before ++ u ++ [t] = before' ++ u' ∧ Opened es before' ∧
      Derives .expression u' := by
  cases opened with
  | group _ w v t' opened awaits opens =>
    refine ⟨w, v ++ (t' :: u ++ [t]), by simp, opened, ?_⟩
    exact awaits.operand (.group opens (inner rfl) closes)
  | brackets _ w v t' object span opened object' opens =>
    refine ⟨w, v ++ t' :: u ++ [t], by simp, opened, ?_⟩
    exact object'.brackets (by simp) opens bracketed closes

theorem Viable.step {s s' : State} (viable : Viable w s) (effect : Effect t s s') :
    Viable (w ++ [t]) s' := by
  cases effect with
  | atom frames held atom =>
    obtain ⟨before, u, rfl, opened, awaits, _⟩ := viable
    exact ⟨before, u ++ [t], by simp, opened, awaits.operand (.atom atom)⟩
  | sign frames p sign openedBy =>
    obtain ⟨before, u, rfl, opened, awaits, _⟩ := viable
    refine ⟨before, u ++ [t], by simp, opened, awaits.signed sign, ?_⟩
    rintro first span rest top
    cases top
    exact ⟨u, t, rfl, openedBy _ _ rfl⟩
  | group frames kind =>
    obtain ⟨before, u, rfl, opened, awaits, _⟩ := viable
    refine ⟨before ++ u ++ [t], [], by simp, .group _ _ _ _ opened awaits kind, .nil, ?_⟩
    rintro first span rest top
    cases top
  | unbounded first span e frames rest held kind closes same =>
    obtain ⟨before, u, rfl, opened, awaits, colon⟩ := viable
    obtain ⟨u', last, rfl, slice⟩ := colon _ _ _ rfl
    rw [enclosures, same] at opened
    apply opened.close closes
    · rintro rfl
      cases kind.symm.trans closes
    · let name : Token := ⟨.identifier, "", t.span⟩
      have atom : name.IsAtom := trivial
      have named : Derives .expression (u' ++ [last] ++ [name]) := awaits.operand (.atom atom)
      exact .unbounded slice rfl (by simpa using named)
  | join p frames rest held op openedBy same =>
    obtain ⟨before, u, rfl, opened, whole⟩ := viable
    refine ⟨before, u ++ [t], by simp, same ▸ opened, .join whole op, ?_⟩
    rintro first span rest top
    cases top
    exact ⟨u, t, rfl, openedBy _ _ rfl⟩
  | brackets object span frames rest held kind same =>
    obtain ⟨before, u, rfl, opened, whole⟩ := viable
    rw [← same] at opened
    refine ⟨before ++ u ++ [t], [], by simp, .brackets _ _ _ _ _ _ opened whole kind, .nil, ?_⟩
    rintro first span rest top
    cases top
  | close e frames rest last held closes same =>
    obtain ⟨before, u, rfl, opened, whole⟩ := viable
    rw [same] at opened
    exact opened.close closes (fun _ => whole) (.place whole)

theorem viable_of_steps {s s' : State} {ts : List Token} (viable : Viable w s)
    (h : steps cap s ts = .ok s') : Viable (w ++ ts) s' := by
  induction ts generalizing w s with
  | nil =>
    cases h
    rwa [List.append_nil]
  | cons t ts ih =>
    obtain ⟨next, stepped, later⟩ := bind_eq_ok.mp h
    rw [List.append_cons]
    exact ih (viable.step (step_effect stepped)) later

/-- What the reader accepts is an expression. -/
theorem derives_of_run {eof : Token} {ts : List Token} {e : Expr}
    (h : run cap (.ok eof) ts (.operand []) = .ok e) : Derives .expression ts := by
  rw [run_eq_steps] at h
  obtain ⟨s, stepped, finished⟩ := bind_eq_ok.mp h
  have viable := viable_of_steps viable_nil stepped
  obtain ⟨frames, held, r, rfl, settled, _⟩ := finish_eq_ok finished
  obtain ⟨before, u, split, opened, whole⟩ := viable
  rw [← (enclosures_of_settle settled).1] at opened
  cases opened
  rwa [show ts = u from split]

end JsonQuery.Parse
