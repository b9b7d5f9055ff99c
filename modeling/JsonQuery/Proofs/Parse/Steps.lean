import JsonQuery.Parse.Machine
import JsonQuery.Proofs.Outcome

/-! Reading as a sequence of steps, one for each token. Whatever is said of a whole reading is said
of one step first. -/
namespace JsonQuery.Parse

variable {cap power : Nat} {t : Token} {frames : List Frame} {held : Operand}

def step (cap : Nat) (s : State) (t : Token) : Except (Located ReadError) State := do
  take cap t (← approach cap t s)

def steps (cap : Nat) (s : State) (ts : List Token) : Except (Located ReadError) State :=
  ts.foldlM (step cap) s

@[simp] theorem steps_nil (s : State) : steps cap s [] = .ok s := rfl

@[simp] theorem steps_cons (s : State) (ts : List Token) :
    steps cap s (t :: ts) = step cap s t >>= fun s' => steps cap s' ts := rfl

theorem steps_append (s : State) (ts us : List Token) :
    steps cap s (ts ++ us) = steps cap s ts >>= fun s' => steps cap s' us :=
  List.foldlM_append

theorem steps_singleton (s : State) : steps cap s [t] = step cap s t := by
  cases h : step cap s t <;> simp [h, bind, Except.bind]

/-- Once the whole text is known to consist of tokens, reading is taking the steps and ending. -/
theorem run_eq_steps (eof : Token) (ts : List Token) (s : State) :
    run cap (.ok eof) ts s = steps cap s ts >>= finish cap eof := by
  induction ts generalizing s with
  | nil => rfl
  | cons t ts ih =>
    rw [run, steps_cons, step]
    cases approach cap t s with
    | error e => rfl
    | ok action =>
      have followed : follow (.ok eof) ts = .ok () := by cases ts <;> rfl
      cases h : take cap t action with
      | error e => simp [h, followed, bind, Except.bind]
      | ok s' => simpa [h, followed, bind, Except.bind] using ih s'

/-- No result without a last token. -/
theorem last_of_run_eq_ok {last : Except (Located LexError) Token} {ts : List Token} {s : State}
    {e : Expr} (h : run cap last ts s = .ok e) : ∃ eof, last = .ok eof := by
  induction ts generalizing s with
  | nil =>
    cases last with
    | error cause => cases h
    | ok eof => exact ⟨eof, rfl⟩
  | cons t ts ih =>
    obtain ⟨action, _, rest⟩ := bind_eq_ok.mp h
    obtain ⟨_, _, rest⟩ := bind_eq_ok.mp rest
    obtain ⟨s', _, later⟩ := bind_eq_ok.mp rest
    exact ih later

def Omits (t : Token) (frames : List Frame) : Prop :=
  t.kind = .rightBracket ∧ ∃ first span rest, frames = .pending (.bound first span) :: rest

theorem approach_of_omits {first : Operand} {span : Span} (closes : t.kind = .rightBracket) :
    approach cap t (.operand (.pending (.bound first span) :: frames)) =
      (Pending.bound first span).complete cap (.number (Number.ofInt (-1)) ⟨t.span.offset, 0⟩) >>=
        approachOperator cap t frames := by
  unfold approach
  rw [closes]

theorem approach_of_not_omits (other : ¬Omits t frames) :
    approach cap t (.operand frames) =
      if cap ≤ frames.length then .error (ParseError.tooComplex.atSpan t.span)
      else .ok (.start frames) := by
  unfold approach
  dsimp only
  split
  · rename_i closes
    exact absurd ⟨closes, _, _, _, rfl⟩ other
  · rfl

/-- The one failure that depends on the cap. -/
def IsTooComplex (e : Located ReadError) : Prop := e.cause = .grammatical .tooComplex

def enclosures : List Frame → List Enclosure
  | [] => []
  | .enclosing e :: frames => e :: enclosures frames
  | .pending _ :: frames => enclosures frames

/-- A construct that waits for a closing token comes first, or there is none. -/
def Grounded : List Frame → Prop
  | .pending _ :: _ => False
  | _ => True

/-- The innermost construct does not give way to a token of a certain power. -/
def Firm (power : Nat) : List Frame → Prop
  | .pending p :: _ => p.threshold < power
  | _ => True

theorem grounded_nil : Grounded [] := trivial

theorem grounded_cons (e : Enclosure) (frames : List Frame) : Grounded (.enclosing e :: frames) :=
  trivial

theorem Grounded.eq_nil_or (grounded : Grounded frames) :
    frames = [] ∨ ∃ e rest, frames = .enclosing e :: rest := by
  cases frames with
  | nil => exact .inl rfl
  | cons f rest =>
    cases f with
    | enclosing e => exact .inr ⟨e, rest, rfl⟩
    | pending p => exact grounded.elim

theorem Firm.grounded (firm : Firm 0 frames) : Grounded frames := by
  cases frames with
  | nil => trivial
  | cons f rest =>
    cases f with
    | enclosing e => trivial
    | pending p => exact absurd firm (Nat.not_lt_zero _)

theorem settle_of_firm (firm : Firm power frames) :
    settle cap power frames held = .ok (frames, held) := by
  cases frames with
  | nil => rfl
  | cons f rest =>
    cases f with
    | enclosing e => rfl
    | pending p => exact if_pos firm

theorem settle_of_le {p : Pending} (gives : power ≤ p.threshold) :
    settle cap power (.pending p :: frames) held =
      p.complete cap held >>= settle cap power frames := by
  rw [settle, if_neg (Nat.not_lt.mpr gives)]

theorem bindingPower_closer (e : Enclosure) : e.closer.bindingPower = 0 := by
  cases e <;> rfl

theorem node_ensures (e : Expr) (depth : Nat) :
    Ensures (fun made => made = ⟨e, depth⟩) IsTooComplex (Operand.node cap e depth) := by
  unfold Operand.node
  split <;> rfl

theorem complete_ensures (p : Pending) :
    Ensures (fun _ => True) IsTooComplex (p.complete cap held) := by
  cases p <;> exact (node_ensures _ _).mono fun _ _ => trivial

theorem close_ensures (e : Enclosure) :
    Ensures (fun _ => True) IsTooComplex (e.close cap held) := by
  cases e with
  | group => trivial
  | brackets object span => exact (node_ensures _ _).mono fun _ _ => trivial

/-- Settling gives up constructs that wait for an operand only, up to one that holds. -/
theorem settle_ensures :
    Ensures (fun r => enclosures r.1 = enclosures frames ∧ Firm power r.1) IsTooComplex
      (settle cap power frames held) := by
  induction frames generalizing held with
  | nil => exact ⟨rfl, trivial⟩
  | cons f rest ih =>
    cases f with
    | enclosing e => exact ⟨rfl, trivial⟩
    | pending p =>
      by_cases holds : p.threshold < power
      · have firm : Firm power (.pending p :: rest) := holds
        rw [settle_of_firm firm]
        exact ⟨rfl, firm⟩
      · rw [settle_of_le (Nat.not_lt.mp holds)]
        exact (complete_ensures p).bind fun made _ => ih

theorem enclosures_of_settle {power : Nat} {rest : List Frame} {r : Operand}
    (h : settle cap power frames held = .ok (rest, r)) :
    enclosures rest = enclosures frames ∧ Firm power rest := by
  have ensured : Ensures (fun r => enclosures r.1 = enclosures frames ∧ Firm power r.1)
    IsTooComplex (settle cap power frames held) := settle_ensures
  rw [h] at ensured
  exact ensured

/-- A result needs that all constructs can be completed. -/
theorem finish_eq_ok {eof : Token} {s : State} {e : Expr} (h : finish cap eof s = .ok e) :
    ∃ frames held r, s = .operator frames held ∧ settle cap 0 frames held = .ok ([], r) ∧
      r.expr = e := by
  cases s with
  | operand frames =>
    unfold finish at h
    dsimp only at h
    split at h <;> cases h
  | operator frames held =>
    obtain ⟨⟨rest, r⟩, settled, ends⟩ := bind_eq_ok.mp h
    obtain rfl | ⟨inner, rest, rfl⟩ := (enclosures_of_settle settled).2.grounded.eq_nil_or
    · cases ends
      exact ⟨frames, held, r, rfl, settled, rfl⟩
    · cases ends

theorem step_of_start (kind : t.kind ≠ .rightBracket) {post : State → Prop}
    (taken : Ensures post IsTooComplex (takeStart t frames)) :
    Ensures post IsTooComplex (step cap (.operand frames) t) := by
  have other : ¬Omits t frames := fun omits => kind omits.1
  rw [step, approach_of_not_omits other]
  split
  · rfl
  · exact taken

/-- A token that binds is taken after what it does not bind into has been completed. -/
theorem step_of_binds (binds : 0 < t.kind.bindingPower) :
    step cap (.operator frames held) t =
      settle cap t.kind.bindingPower frames held >>= fun r => takeExtend t r.1 r.2 := by
  change approachOperator cap t frames held >>= take cap t = _
  unfold approachOperator
  cases settle cap t.kind.bindingPower frames held with
  | error e => rfl
  | ok r =>
    change (if 0 < t.kind.bindingPower then _ else _ : Except _ _) >>= take cap t = _
    rw [if_pos binds]
    rfl

theorem step_leftParen (kind : t.kind = .leftParen) :
    Ensures (· = .operand (.enclosing .group :: frames)) IsTooComplex
      (step cap (.operand frames) t) := by
  apply step_of_start
  · simp [kind]
  · simp only [takeStart, kind]
    rfl

/-- The innermost construct is a certain one that waits for a closing token, and something holds of
what is around it and of the operand. -/
def Exposes (e : Enclosure) (post : List Frame → Operand → Prop) (r : List Frame × Operand) :
    Prop :=
  ∃ rest, r.1 = .enclosing e :: rest ∧ post rest r.2

theorem approachOperator_of_closes {e : Enclosure} {post : List Frame → Operand → Prop}
    (closes : t.kind = e.closer)
    (settled : Ensures (Exposes e post) IsTooComplex (settle cap 0 frames held)) :
    Ensures (fun action => ∃ rest r, action = .close e rest r ∧ post rest r) IsTooComplex
      (approachOperator cap t frames held) := by
  have unbound : t.kind.bindingPower = 0 := closes ▸ bindingPower_closer e
  rw [approachOperator, unbound]
  apply settled.bind
  rintro ⟨_, r⟩ ⟨rest, rfl, kept⟩
  simp only [Nat.lt_irrefl, if_false, if_pos closes]
  exact ⟨rest, r, rfl, kept⟩

theorem take_of_closes (e : Enclosure) (rest : List Frame) (r : Operand) :
    Ensures (fun s => ∃ made, e.close cap r = .ok made ∧ s = .operator rest made) IsTooComplex
      (take cap t (.close e rest r)) := by
  have ends : Ensures (fun _ => True) IsTooComplex (e.close cap r) := close_ensures e
  change Ensures _ _ (e.close cap r >>= _)
  cases closed : e.close cap r with
  | error cause =>
    rw [closed] at ends
    exact ends
  | ok made => exact ⟨made, rfl, rfl⟩

/-- A closing token is taken when settling exposes the construct that it closes. -/
theorem step_of_closes {e : Enclosure} {post : List Frame → Operand → Prop}
    (closes : t.kind = e.closer)
    (settled : Ensures (Exposes e post) IsTooComplex (settle cap 0 frames held)) :
    Ensures (fun s => ∃ rest r made, post rest r ∧ e.close cap r = .ok made ∧
      s = .operator rest made) IsTooComplex (step cap (.operator frames held) t) := by
  apply (approachOperator_of_closes closes settled).bind
  rintro _ ⟨rest, r, rfl, kept⟩
  apply (take_of_closes e rest r).mono
  rintro _ ⟨made, closed, rfl⟩
  exact ⟨rest, r, made, kept, closed, rfl⟩

end JsonQuery.Parse
