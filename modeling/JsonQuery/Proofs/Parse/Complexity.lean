import JsonQuery.Proofs.Parse.Steps

/-! How complex an expression can become. Every token adds at most one to the depth of what has been
read so far and of all constructs around it, so a cap above the number of tokens is never
reached. -/
namespace JsonQuery.Parse

variable {cap power : Nat} {t : Token} {frames : List Frame} {held : Operand}

def Operand.weight (o : Operand) : Nat := max 1 o.depth

/-- What a construct can add to the depth of its last operand. -/
def Frame.weight : Frame → Nat
  | .enclosing .group => 1
  | .enclosing (.brackets object _) => object.weight
  | .pending (.unary _ _) => 1
  | .pending (.bound first _) => first.weight
  | .pending (.right _ left _) => left.weight
  | .pending (.member object _) => object.weight
  | .pending (.condition items _) => items.weight

def weight : List Frame → Nat
  | [] => 0
  | f :: frames => f.weight + weight frames

def State.weight : State → Nat
  | .operand frames => Parse.weight frames
  | .operator frames held => Parse.weight frames + held.weight

/-- What the token adds is counted here already. -/
def Action.weight : Action → Nat
  | .start frames => Parse.weight frames + 1
  | .extend frames held => Parse.weight frames + held.weight
  | .close e frames held => (Frame.enclosing e).weight + Parse.weight frames + held.weight

@[simp] theorem weight_nil : weight [] = 0 := rfl

@[simp] theorem weight_cons (f : Frame) : weight (f :: frames) = f.weight + weight frames := rfl

theorem Operand.one_le_weight (o : Operand) : 1 ≤ o.weight := Nat.le_max_left _ _

theorem Operand.depth_le_weight (o : Operand) : o.depth ≤ o.weight := Nat.le_max_right _ _

theorem Frame.one_le_weight (f : Frame) : 1 ≤ f.weight := by
  cases f with
  | enclosing e =>
    cases e with
    | group => exact Nat.le_refl _
    | brackets object span => exact object.one_le_weight
  | pending p =>
    cases p with
    | unary op span => exact Nat.le_refl _
    | bound first span => exact first.one_le_weight
    | right op left span => exact left.one_le_weight
    | member object span => exact object.one_le_weight
    | condition items span => exact items.one_le_weight

theorem length_le_weight (frames : List Frame) : frames.length ≤ weight frames := by
  induction frames with
  | nil => exact Nat.le_refl _
  | cons f frames ih =>
    have one := f.one_le_weight
    rw [List.length_cons, weight_cons]
    omega

/-- A reading becomes too complex only under a cap of at most a bound. -/
def Within (cap bound : Nat) (e : Located ReadError) : Prop := IsTooComplex e → cap ≤ bound

theorem within_of_grammatical {bound : Nat} {e : ParseError} {span : Span}
    (other : e ≠ .tooComplex) : Within cap bound (e.atSpan span) :=
  fun complex => absurd (ReadError.grammatical.inj complex) other

theorem node_weight {e : Expr} {depth most bound : Nat} (one : 1 ≤ most) (deep : depth ≤ most)
    (le : most ≤ bound) :
    Ensures (fun o => o.weight ≤ most) (Within cap bound) (Operand.node cap e depth) := by
  unfold Operand.node
  split
  · intro _
    omega
  · exact Nat.max_le.mpr ⟨one, deep⟩

theorem pair_weight {build : Expr → Expr → Span → Expr} {a b : Operand} {span : Span} {bound : Nat}
    (le : a.weight + b.weight ≤ bound) :
    Ensures (fun o => o.weight ≤ a.weight + b.weight) (Within cap bound)
      (Operand.pair cap build a b span) := by
  have ha := a.one_le_weight
  have hb := b.one_le_weight
  have da := a.depth_le_weight
  have db := b.depth_le_weight
  exact node_weight (by omega) (by omega) le

theorem complete_weight {p : Pending} {bound : Nat}
    (le : (Frame.pending p).weight + held.weight ≤ bound) :
    Ensures (fun o => o.weight ≤ (Frame.pending p).weight + held.weight) (Within cap bound)
      (p.complete cap held) := by
  cases p with
  | unary op span =>
    have deep := held.depth_le_weight
    rw [Frame.weight] at le ⊢
    exact node_weight (by omega) (by omega) le
  | bound first span => exact pair_weight le
  | right op left span => exact pair_weight le
  | member object span => exact pair_weight le
  | condition items span => exact pair_weight le

theorem close_weight {e : Enclosure} {bound : Nat}
    (le : (Frame.enclosing e).weight + held.weight ≤ bound) :
    Ensures (fun o => o.weight ≤ (Frame.enclosing e).weight + held.weight) (Within cap bound)
      (e.close cap held) := by
  cases e with
  | group => exact Nat.le_add_left _ _
  | brackets object span => exact pair_weight le

theorem settle_weight {bound : Nat} (le : weight frames + held.weight ≤ bound) :
    Ensures (fun r => weight r.1 + r.2.weight ≤ weight frames + held.weight) (Within cap bound)
      (settle cap power frames held) := by
  induction frames generalizing held with
  | nil => exact Nat.le_refl _
  | cons f frames ih =>
    cases f with
    | enclosing e => exact Nat.le_refl _
    | pending p =>
      by_cases holds : p.threshold < power
      · have firm : Firm power (.pending p :: frames) := holds
        rw [settle_of_firm firm]
        exact Nat.le_refl _
      · rw [settle_of_le (Nat.not_lt.mp holds)]
        rw [weight_cons] at le ⊢
        apply (complete_weight (by omega)).bind
        intro made less
        apply (ih (by omega)).mono
        intro r kept
        omega

theorem approachOperator_weight {bound : Nat} (le : weight frames + held.weight ≤ bound) :
    Ensures (fun action => action.weight ≤ weight frames + held.weight) (Within cap bound)
      (approachOperator cap t frames held) := by
  apply (settle_weight le).bind
  rintro ⟨rest, r⟩ less
  dsimp only at less ⊢
  split
  · exact less
  split
  · rw [weight_cons] at less
    split
    · exact less
    · exact within_of_grammatical (by simp)
  · exact within_of_grammatical (by simp)

theorem approach_weight {s : State} {bound : Nat} (le : s.weight + 1 ≤ bound) :
    Ensures (fun action => action.weight ≤ s.weight + 1) (Within cap bound)
      (approach cap t s) := by
  cases s with
  | operator frames held =>
    apply (approachOperator_weight (Nat.le_of_succ_le le)).mono
    intro action less
    exact Nat.le_succ_of_le less
  | operand frames =>
    rw [State.weight] at le ⊢
    by_cases omits : Omits t frames
    · obtain ⟨closes, first, span, rest, rfl⟩ := omits
      have last : (Operand.number (Number.ofInt (-1)) ⟨t.span.offset, 0⟩).weight = 1 := rfl
      rw [approach_of_omits closes]
      rw [weight_cons] at le ⊢
      apply (complete_weight (by omega)).bind
      intro made less
      apply (approachOperator_weight (by omega)).mono
      intro action less'
      omega
    · rw [approach_of_not_omits omits]
      split
      · intro _
        have few := length_le_weight frames
        omega
      · exact Nat.le_refl _

theorem takeStart_weight {bound : Nat} :
    Ensures (fun s => s.weight ≤ weight frames + 1) (Within cap bound) (takeStart t frames) := by
  have grows (f : Frame) (one : f.weight = 1) : weight (f :: frames) ≤ weight frames + 1 := by
    rw [weight_cons, one]
    omega
  unfold takeStart
  split
  · exact Nat.le_refl _
  · exact Nat.le_refl _
  · split
    · exact Nat.le_refl _
    · exact within_of_grammatical (by simp)
  · exact grows _ rfl
  · exact grows _ rfl
  · exact grows _ rfl
  · exact grows _ rfl
  · exact within_of_grammatical (by simp)
  · exact within_of_grammatical (by simp)
  · exact within_of_grammatical (by simp)
  · exact within_of_grammatical (by simp)
  · split <;> exact within_of_grammatical (by simp)

theorem takeExtend_weight {bound : Nat} :
    Ensures (fun s => s.weight ≤ weight frames + held.weight) (Within cap bound)
      (takeExtend t frames held) := by
  have keeps (f : Frame) (same : f.weight = held.weight) :
      weight (f :: frames) ≤ weight frames + held.weight := by
    rw [weight_cons, same]
    omega
  unfold takeExtend
  split
  · exact keeps _ rfl
  · exact keeps _ rfl
  · exact keeps _ rfl
  · exact keeps _ rfl
  · exact within_of_grammatical (by simp)
  · split
    · exact keeps _ rfl
    · exact within_of_grammatical (by simp)

theorem step_weight {s : State} {bound : Nat} (le : s.weight + 1 ≤ bound) :
    Ensures (fun s' => s'.weight ≤ s.weight + 1) (Within cap bound) (step cap s t) := by
  apply (approach_weight le).bind
  intro action less
  cases action with
  | start frames => exact takeStart_weight.mono fun s' kept => Nat.le_trans kept less
  | extend frames held => exact takeExtend_weight.mono fun s' kept => Nat.le_trans kept less
  | close e frames held =>
    rw [Action.weight] at less
    apply (close_weight (by omega)).bind
    intro made kept
    change weight frames + made.weight ≤ s.weight + 1
    omega

/-- So many tokens cannot make more of a state than they are. -/
theorem steps_weight {s : State} {ts : List Token} {bound : Nat}
    (le : s.weight + ts.length ≤ bound) :
    Ensures (fun s' => s'.weight ≤ bound) (Within cap bound) (steps cap s ts) := by
  induction ts generalizing s with
  | nil => exact le
  | cons t ts ih =>
    rw [List.length_cons] at le
    apply (step_weight (by omega)).bind
    intro s' less
    exact ih (by omega)

theorem finish_weight {eof : Token} {s : State} {bound : Nat} (le : s.weight ≤ bound) :
    Ensures (fun _ => True) (Within cap bound) (finish cap eof s) := by
  cases s with
  | operand frames =>
    unfold finish
    dsimp only
    split
    · rename_i full
      intro _
      exact Nat.le_trans full (Nat.le_trans (length_le_weight frames) le)
    · exact within_of_grammatical (by simp)
  | operator frames held =>
    apply (settle_weight le).bind
    rintro ⟨rest, r⟩ -
    dsimp only
    split
    · exact within_of_grammatical (by simp)
    · trivial

/-- Under a cap above the number of tokens, what can only fail for its complexity succeeds. -/
theorem run_eq_ok_of_room {eof : Token} {ts : List Token} {post : Expr → Prop}
    (room : ts.length < cap)
    (read : Ensures post IsTooComplex (run cap (.ok eof) ts (.operand []))) :
    ∃ e, run cap (.ok eof) ts (.operand []) = .ok e ∧ post e := by
  have start : (State.operand []).weight + ts.length ≤ ts.length := by simp [State.weight]
  have within : Ensures (fun _ => True) (Within cap ts.length)
      (run cap (.ok eof) ts (.operand [])) := by
    rw [run_eq_steps]
    exact (steps_weight start).bind fun s less => finish_weight less
  cases ran : run cap (.ok eof) ts (.operand []) with
  | ok e =>
    rw [ran] at read
    exact ⟨e, rfl, read⟩
  | error e =>
    rw [ran] at read within
    exact absurd (within read) (Nat.not_le.mpr room)

end JsonQuery.Parse
