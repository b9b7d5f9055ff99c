import JsonQuery.Proofs.Parse.Steps

/-! Reading inside of something. What can be read on its own can be read, under any cap, after
something that waits for a closing token, and with the same outcome, unless the constructs around it
make it too complex. -/
namespace JsonQuery.Parse

variable {cap cap' power : Nat} {t : Token} {frames base : List Frame} {held : Operand}

/-- The failure of a reading under a cap that is below another cap together with the constructs
around. -/
def Exceeds (cap' : Nat) (base : List Frame) (cap : Nat) (e : Located ReadError) : Prop :=
  IsTooComplex e ∧ cap' < cap + base.length

def State.onto (base : List Frame) : State → State
  | .operand frames => .operand (frames ++ base)
  | .operator frames held => .operator (frames ++ base) held

def Action.onto (base : List Frame) : Action → Action
  | .start frames => .start (frames ++ base)
  | .extend frames held => .extend (frames ++ base) held
  | .close e frames held => .close e (frames ++ base) held

theorem node_onto {e : Expr} {depth : Nat} {r : Operand} (h : Operand.node cap e depth = .ok r) :
    Ensures (· = r) (Exceeds cap' base cap) (Operand.node cap' e depth) := by
  unfold Operand.node at h ⊢
  split at h
  · cases h
  · cases h
    split
    · exact ⟨rfl, by omega⟩
    · rfl

theorem complete_onto {p : Pending} {r : Operand} (h : p.complete cap held = .ok r) :
    Ensures (· = r) (Exceeds cap' base cap) (p.complete cap' held) := by
  cases p <;> exact node_onto h

theorem close_onto {e : Enclosure} {r : Operand} (h : e.close cap held = .ok r) :
    Ensures (· = r) (Exceeds cap' base cap) (e.close cap' held) := by
  cases e with
  | group => exact Except.ok.inj h
  | brackets object span => exact node_onto h

theorem settle_onto (grounded : Grounded base) {rest : List Frame} {r : Operand}
    (h : settle cap power frames held = .ok (rest, r)) :
    Ensures (· = (rest ++ base, r)) (Exceeds cap' base cap)
      (settle cap' power (frames ++ base) held) := by
  induction frames generalizing held with
  | nil =>
    cases h
    have firm : Firm power base := by
      obtain rfl | ⟨e, rest, rfl⟩ := grounded.eq_nil_or <;> trivial
    rw [List.nil_append, settle_of_firm firm]
    rfl
  | cons f frames ih =>
    cases f with
    | enclosing e =>
      cases h
      rfl
    | pending p =>
      by_cases holds : p.threshold < power
      · have firm : Firm power (.pending p :: frames) := holds
        rw [settle_of_firm firm] at h
        cases h
        have still : Firm power (.pending p :: frames ++ base) := holds
        rw [settle_of_firm still]
        rfl
      · rw [List.cons_append, settle_of_le (Nat.not_lt.mp holds)]
        rw [settle_of_le (Nat.not_lt.mp holds)] at h
        obtain ⟨made, completed, later⟩ := bind_eq_ok.mp h
        apply (complete_onto completed).bind
        rintro _ rfl
        exact ih later

theorem approachOperator_onto (grounded : Grounded base) {action : Action}
    (h : approachOperator cap t frames held = .ok action) :
    Ensures (· = action.onto base) (Exceeds cap' base cap)
      (approachOperator cap' t (frames ++ base) held) := by
  obtain ⟨⟨rest, r⟩, settled, acts⟩ := bind_eq_ok.mp h
  apply (settle_onto grounded settled).bind
  rintro _ rfl
  dsimp only at acts ⊢
  split at acts
  · rename_i binds
    cases acts
    rw [if_pos binds]
    rfl
  · rename_i ends
    rw [if_neg ends]
    split at acts
    · split at acts
      · rename_i closes
        cases acts
        rw [List.cons_append]
        dsimp only
        rw [if_pos closes]
        rfl
      · cases acts
    · cases acts

/-- An end bound is left out in the same places, since what is around does not wait for one. -/
theorem omits_append_iff (grounded : Grounded base) :
    Omits t (frames ++ base) ↔ Omits t frames := by
  cases frames with
  | nil =>
    obtain rfl | ⟨e, rest, rfl⟩ := grounded.eq_nil_or <;> simp [Omits]
  | cons f rest => simp [Omits]

theorem approach_onto (grounded : Grounded base) {s : State} {action : Action}
    (h : approach cap t s = .ok action) :
    Ensures (· = action.onto base) (Exceeds cap' base cap) (approach cap' t (s.onto base)) := by
  cases s with
  | operator frames held => exact approachOperator_onto grounded h
  | operand frames =>
    by_cases omits : Omits t frames
    · obtain ⟨closes, first, span, rest, rfl⟩ := omits
      rw [approach_of_omits closes] at h
      obtain ⟨made, completed, later⟩ := bind_eq_ok.mp h
      rw [State.onto, List.cons_append, approach_of_omits closes]
      apply (complete_onto completed).bind
      rintro _ rfl
      exact approachOperator_onto grounded later
    · rw [approach_of_not_omits omits] at h
      rw [State.onto, approach_of_not_omits (mt (omits_append_iff grounded).mp omits)]
      split at h
      · cases h
      · cases h
        split
        · refine ⟨rfl, ?_⟩
          rw [List.length_append] at *
          omega
        · rfl

theorem takeStart_onto {s : State} (h : takeStart t frames = .ok s) :
    takeStart t (frames ++ base) = .ok (s.onto base) := by
  unfold takeStart at *
  cases kind : t.kind <;> rw [kind] at h
  case number =>
    dsimp only at h ⊢
    split at h <;> cases h
    rfl
  case dot | mulDiv | power | comparison | and | or | stringCompare | filter =>
    dsimp only at h
    split at h <;> cases h
  all_goals cases h
  all_goals rfl

theorem takeExtend_onto {s : State} (h : takeExtend t frames held = .ok s) :
    takeExtend t (frames ++ base) held = .ok (s.onto base) := by
  unfold takeExtend at *
  cases kind : t.kind <;> rw [kind] at h
  case dot | leftBracket | slice | filter =>
    cases h
    rfl
  case leftParen => cases h
  all_goals
    dsimp only at h ⊢
    split at h <;> cases h
    rfl

theorem step_onto (grounded : Grounded base) {s s' : State} (h : step cap s t = .ok s') :
    Ensures (· = s'.onto base) (Exceeds cap' base cap) (step cap' (s.onto base) t) := by
  obtain ⟨action, approached, taken⟩ := bind_eq_ok.mp h
  apply (approach_onto grounded approached).bind
  rintro _ rfl
  cases action with
  | start frames =>
    rw [Action.onto, take, takeStart_onto taken]
    rfl
  | extend frames held =>
    rw [Action.onto, take, takeExtend_onto taken]
    rfl
  | close e frames held =>
    obtain ⟨made, closed, moved⟩ := bind_eq_ok.mp taken
    cases moved
    apply (close_onto closed).bind
    rintro _ rfl
    rfl

/-- What can be read on its own can be read in the same way within further constructs. -/
theorem steps_onto (grounded : Grounded base) {s s' : State} {ts : List Token}
    (h : steps cap s ts = .ok s') :
    Ensures (· = s'.onto base) (Exceeds cap' base cap) (steps cap' (s.onto base) ts) := by
  induction ts generalizing s with
  | nil =>
    cases h
    rfl
  | cons t ts ih =>
    obtain ⟨next, stepped, later⟩ := bind_eq_ok.mp h
    apply (step_onto grounded stepped).bind
    rintro _ rfl
    exact ih later

/-- A higher cap allows what a lower one allows. -/
theorem steps_of_le (le : cap ≤ cap') {s s' : State} {ts : List Token}
    (h : steps cap s ts = .ok s') : steps cap' s ts = .ok s' := by
  have same (s : State) : s.onto [] = s := by cases s <;> simp [State.onto]
  have lifted : Ensures (· = s'.onto []) (Exceeds cap' [] cap) (steps cap' (s.onto []) ts) :=
    steps_onto grounded_nil h
  rw [same, same] at lifted
  cases again : steps cap' s ts with
  | ok r =>
    rw [again] at lifted
    rw [show r = s' from lifted]
  | error e =>
    rw [again] at lifted
    exact absurd lifted.2 (by simpa using le)

end JsonQuery.Parse
