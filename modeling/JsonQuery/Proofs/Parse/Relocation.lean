import JsonQuery.Proofs.Parse.Steps

/-! Reading does not look at places. When the places of all tokens are changed in some way, what is
read from them is the same with its places changed in that way, and so is a failure. An omitted
bound has an empty span at the place of a token, so empty spans have to stay empty. -/
namespace JsonQuery

variable {f : Span → Span}

def Expr.mapSpan (f : Span → Span) : Expr → Expr
  | literal value span => literal value (f span)
  | identifier name span => identifier name (f span)
  | field a b span => field (a.mapSpan f) (b.mapSpan f) (f span)
  | index a b span => index (a.mapSpan f) (b.mapSpan f) (f span)
  | slice a b span => slice (a.mapSpan f) (b.mapSpan f) (f span)
  | unary op a span => unary op (a.mapSpan f) (f span)
  | binary op a b span => binary op (a.mapSpan f) (b.mapSpan f) (f span)
  | filter a b span => filter (a.mapSpan f) (b.mapSpan f) (f span)

@[simp] theorem Expr.span_mapSpan (e : Expr) : (e.mapSpan f).span = f e.span := by
  cases e <;> rfl

def Token.mapSpan (f : Span → Span) (t : Token) : Token := ⟨t.kind, t.text, f t.span⟩

def Located.mapSpan {ε : Type} (f : Span → Span) (e : Located ε) : Located ε := ⟨e.cause, f e.span⟩

def relocate {ε α β : Type} (f : Span → Span) (g : α → β) :
    Except (Located ε) α → Except (Located ε) β
  | .ok a => .ok (g a)
  | .error e => .error (e.mapSpan f)

theorem relocate_bind {ε α β γ δ : Type} {x : Except (Located ε) α} {g : α → β} {h : γ → δ}
    {k : α → Except (Located ε) γ} {k' : β → Except (Located ε) δ}
    (same : ∀ a, k' (g a) = relocate f h (k a)) :
    relocate f g x >>= k' = relocate f h (x >>= k) := by
  cases x with
  | error e => rfl
  | ok a => exact same a

/-- What is promised of an outcome at other places is promised of the outcome itself. -/
theorem Ensures.of_relocate {ε α β : Type} {x : Except (Located ε) α} {g : α → β}
    {post : β → Prop} {fails : Located ε → Prop} (h : Ensures post fails (relocate f g x))
    (anywhere : ∀ e : Located ε, fails (e.mapSpan f) → fails e) :
    Ensures (fun a => post (g a)) fails x := by
  cases x with
  | error e => exact anywhere e h
  | ok a => exact h

namespace Parse

def Operand.mapSpan (f : Span → Span) (o : Operand) : Operand := ⟨o.expr.mapSpan f, o.depth⟩

def Enclosure.mapSpan (f : Span → Span) : Enclosure → Enclosure
  | .group => .group
  | .brackets object span => .brackets (object.mapSpan f) (f span)

def Pending.mapSpan (f : Span → Span) : Pending → Pending
  | .unary op span => .unary op (f span)
  | .bound first span => .bound (first.mapSpan f) (f span)
  | .right op left span => .right op (left.mapSpan f) (f span)
  | .member object span => .member (object.mapSpan f) (f span)
  | .condition items span => .condition (items.mapSpan f) (f span)

def Frame.mapSpan (f : Span → Span) : Frame → Frame
  | .enclosing e => .enclosing (e.mapSpan f)
  | .pending p => .pending (p.mapSpan f)

def State.mapSpan (f : Span → Span) : State → State
  | .operand frames => .operand (frames.map (Frame.mapSpan f))
  | .operator frames held => .operator (frames.map (Frame.mapSpan f)) (held.mapSpan f)

def Action.mapSpan (f : Span → Span) : Action → Action
  | .start frames => .start (frames.map (Frame.mapSpan f))
  | .extend frames held => .extend (frames.map (Frame.mapSpan f)) (held.mapSpan f)
  | .close e frames held =>
    .close (e.mapSpan f) (frames.map (Frame.mapSpan f)) (held.mapSpan f)

variable {cap power : Nat} {t : Token} {frames : List Frame} {held : Operand}

@[simp] theorem closer_mapSpan (e : Enclosure) : (e.mapSpan f).closer = e.closer := by
  cases e <;> rfl

@[simp] theorem threshold_mapSpan (p : Pending) : (p.mapSpan f).threshold = p.threshold := by
  cases p <;> rfl

theorem node_mapSpan (e : Expr) (depth : Nat) :
    Operand.node cap (e.mapSpan f) depth =
      relocate f (Operand.mapSpan f) (Operand.node cap e depth) := by
  unfold Operand.node
  rw [Expr.span_mapSpan]
  split <;> rfl

theorem complete_mapSpan (p : Pending) :
    (p.mapSpan f).complete cap (held.mapSpan f) =
      relocate f (Operand.mapSpan f) (p.complete cap held) := by
  cases p with
  | unary op span => exact node_mapSpan (.unary op held.expr span) _
  | bound first span => exact node_mapSpan (.slice first.expr held.expr span) _
  | right op left span => exact node_mapSpan (.binary op left.expr held.expr span) _
  | member object span => exact node_mapSpan (.field object.expr held.expr span) _
  | condition items span => exact node_mapSpan (.filter items.expr held.expr span) _

theorem close_mapSpan (e : Enclosure) :
    (e.mapSpan f).close cap (held.mapSpan f) =
      relocate f (Operand.mapSpan f) (e.close cap held) := by
  cases e with
  | group => rfl
  | brackets object span => exact node_mapSpan (.index object.expr held.expr span) _

theorem settle_mapSpan :
    settle cap power (frames.map (Frame.mapSpan f)) (held.mapSpan f) =
      relocate f (fun r => (r.1.map (Frame.mapSpan f), r.2.mapSpan f))
        (settle cap power frames held) := by
  induction frames generalizing held with
  | nil => rfl
  | cons frame frames ih =>
    cases frame with
    | enclosing e => rfl
    | pending p =>
      rw [List.map_cons, Frame.mapSpan, settle, settle, threshold_mapSpan]
      split
      · rfl
      · rw [complete_mapSpan]
        exact relocate_bind fun made => ih

theorem approachOperator_mapSpan :
    approachOperator cap (t.mapSpan f) (frames.map (Frame.mapSpan f)) (held.mapSpan f) =
      relocate f (Action.mapSpan f) (approachOperator cap t frames held) := by
  unfold approachOperator
  rw [show (t.mapSpan f).kind = t.kind from rfl, settle_mapSpan]
  apply relocate_bind
  rintro ⟨rest, r⟩
  dsimp only
  split
  · rfl
  · cases rest with
    | nil => rfl
    | cons frame rest =>
      cases frame with
      | pending p => rfl
      | enclosing e =>
        simp only [List.map_cons, Frame.mapSpan, closer_mapSpan]
        split <;> rfl

/-- Empty spans stay empty, so that where one begins is all that matters. -/
def KeepsEmpty (f : Span → Span) : Prop := ∀ s : Span, f ⟨s.offset, 0⟩ = ⟨(f s).offset, 0⟩

theorem omits_mapSpan_iff :
    Omits (t.mapSpan f) (frames.map (Frame.mapSpan f)) ↔ Omits t frames := by
  cases frames with
  | nil => simp [Omits]
  | cons frame rest =>
    cases frame with
    | enclosing e => simp [Omits, Frame.mapSpan]
    | pending p => cases p <;> simp [Omits, Frame.mapSpan, Pending.mapSpan, Token.mapSpan]

theorem approach_mapSpan (keeps : KeepsEmpty f) (s : State) :
    approach cap (t.mapSpan f) (s.mapSpan f) =
      relocate f (Action.mapSpan f) (approach cap t s) := by
  cases s with
  | operator frames held => exact approachOperator_mapSpan
  | operand frames =>
    by_cases omits : Omits t frames
    · obtain ⟨closes, first, span, rest, rfl⟩ := omits
      have last : Operand.number (Number.ofInt (-1)) ⟨(f t.span).offset, 0⟩ =
          (Operand.number (Number.ofInt (-1)) ⟨t.span.offset, 0⟩).mapSpan f := by
        rw [← keeps]
        rfl
      have closes' : (t.mapSpan f).kind = .rightBracket := closes
      calc approach cap (t.mapSpan f)
            (State.mapSpan f (.operand (.pending (.bound first span) :: rest)))
          = ((Pending.bound first span).mapSpan f).complete cap
                (.number (Number.ofInt (-1)) ⟨(f t.span).offset, 0⟩) >>=
              approachOperator cap (t.mapSpan f) (rest.map (Frame.mapSpan f)) :=
            approach_of_omits closes'
        _ = relocate f (Operand.mapSpan f) ((Pending.bound first span).complete cap
                (.number (Number.ofInt (-1)) ⟨t.span.offset, 0⟩)) >>=
              approachOperator cap (t.mapSpan f) (rest.map (Frame.mapSpan f)) := by
            rw [last, complete_mapSpan]
        _ = relocate f (Action.mapSpan f)
              (approach cap t (.operand (.pending (.bound first span) :: rest))) := by
            rw [approach_of_omits closes]
            exact relocate_bind fun made => approachOperator_mapSpan
    · rw [State.mapSpan, approach_of_not_omits omits,
        approach_of_not_omits (mt omits_mapSpan_iff.mp omits), List.length_map]
      split <;> rfl

theorem takeStart_mapSpan :
    takeStart (t.mapSpan f) (frames.map (Frame.mapSpan f)) =
      relocate f (State.mapSpan f) (takeStart t frames) := by
  unfold takeStart
  cases kind : t.kind <;> simp only [Token.mapSpan, kind] <;> try rfl
  case number => cases Number.ofLiteral? t.text.toList <;> rfl
  all_goals
    cases frames with
    | nil => rfl
    | cons frame frames => cases frame <;> rfl

theorem takeExtend_mapSpan :
    takeExtend (t.mapSpan f) (frames.map (Frame.mapSpan f)) (held.mapSpan f) =
      relocate f (State.mapSpan f) (takeExtend t frames held) := by
  unfold takeExtend
  cases kind : t.kind <;> simp only [Token.mapSpan, kind] <;> try rfl
  all_goals
    cases BinaryOp.ofSymbol? t.text <;> rfl

theorem take_mapSpan (action : Action) :
    take cap (t.mapSpan f) (action.mapSpan f) =
      relocate f (State.mapSpan f) (take cap t action) := by
  cases action with
  | start frames => exact takeStart_mapSpan
  | extend frames held => exact takeExtend_mapSpan
  | close e frames held =>
    change (e.mapSpan f).close cap (held.mapSpan f) >>= _ = _
    rw [close_mapSpan]
    exact relocate_bind fun made => rfl

theorem step_mapSpan (keeps : KeepsEmpty f) (s : State) :
    step cap (s.mapSpan f) (t.mapSpan f) = relocate f (State.mapSpan f) (step cap s t) := by
  rw [step, step, approach_mapSpan keeps]
  exact relocate_bind take_mapSpan

theorem steps_mapSpan (keeps : KeepsEmpty f) (s : State) (ts : List Token) :
    steps cap (s.mapSpan f) (ts.map (Token.mapSpan f)) =
      relocate f (State.mapSpan f) (steps cap s ts) := by
  induction ts generalizing s with
  | nil => rfl
  | cons t ts ih =>
    rw [List.map_cons, steps_cons, steps_cons, step_mapSpan keeps]
    exact relocate_bind ih

theorem finish_mapSpan (s : State) :
    finish cap (t.mapSpan f) (s.mapSpan f) = relocate f (Expr.mapSpan f) (finish cap t s) := by
  cases s with
  | operand frames =>
    simp only [finish, State.mapSpan, List.length_map]
    split <;> rfl
  | operator frames held =>
    simp only [finish, State.mapSpan]
    rw [settle_mapSpan]
    apply relocate_bind
    rintro ⟨rest, r⟩
    cases rest with
    | nil => rfl
    | cons frame rest =>
      cases frame with
      | pending p => rfl
      | enclosing e =>
        simp only [List.map_cons, Frame.mapSpan, closer_mapSpan]
        rfl

theorem follow_mapSpan (last : Except (Located LexError) Token) (ts : List Token) :
    follow (relocate f (Token.mapSpan f) last) (ts.map (Token.mapSpan f)) =
      relocate f id (follow last ts) := by
  cases ts with
  | nil => cases last <;> rfl
  | cons t ts => rfl

/-- Tokens at other places are read as the same expression at other places, or with the same failure
at another place, be it a lexical one. -/
theorem run_relocate (keeps : KeepsEmpty f) (last : Except (Located LexError) Token)
    (ts : List Token) (s : State) :
    run cap (relocate f (Token.mapSpan f) last) (ts.map (Token.mapSpan f)) (s.mapSpan f) =
      relocate f (Expr.mapSpan f) (run cap last ts s) := by
  induction ts generalizing s with
  | nil =>
    cases last with
    | error e => rfl
    | ok eof => exact finish_mapSpan s
  | cons t ts ih =>
    rw [List.map_cons, run, run, approach_mapSpan keeps]
    apply relocate_bind
    intro action
    rw [follow_mapSpan]
    apply relocate_bind
    intro _
    rw [take_mapSpan]
    exact relocate_bind ih

theorem run_mapSpan (keeps : KeepsEmpty f) (eof : Token) (ts : List Token) (s : State) :
    run cap (.ok (eof.mapSpan f)) (ts.map (Token.mapSpan f)) (s.mapSpan f) =
      relocate f (Expr.mapSpan f) (run cap (.ok eof) ts s) :=
  run_relocate keeps (.ok eof) ts s

end Parse
end JsonQuery
