import JsonQuery.Proofs.Parse.Acceptance
import JsonQuery.Proofs.Parse.Arena
import JsonQuery.Proofs.Parse.Placement
import JsonQuery.Proofs.Parse.Precedence

/-! What the cap does. Two readings under different caps take the same steps until the lower cap is
exceeded, so the cap adds one failure and changes nothing else. How much a flat chain needs is told
by the number of its operands. -/
namespace JsonQuery.Parse

variable {α β : Type} {low high : Nat} {t : Token} {frames : List Frame} {held : Operand}

/-- The second outcome is the first one, unless the first is that a cap was exceeded. -/
inductive Raised (x : Except (Located ReadError) α) : Except (Located ReadError) α → Prop where
  | same : Raised x x
  | exceeded {y : Except (Located ReadError) α} {e : Located ReadError} : x = .error e →
      IsTooComplex e → Raised x y

namespace Raised

variable {x y : Except (Located ReadError) α}

theorem bind {f g : α → Except (Located ReadError) β} (first : Raised x y)
    (rest : ∀ a, Raised (f a) (g a)) : Raised (x >>= f) (y >>= g) := by
  cases first with
  | same =>
    cases x with
    | error e => exact .same
    | ok a => exact rest a
  | @exceeded _ e failed complex =>
    subst failed
    exact .exceeded rfl complex

theorem eq_ok {a : α} (h : Raised x y) (read : x = .ok a) : y = .ok a := by
  cases h with
  | same => exact read
  | exceeded failed _ => cases failed.symm.trans read

theorem eq_error {e : Located ReadError} (h : Raised x y) (failed : x = .error e)
    (other : ¬IsTooComplex e) : y = .error e := by
  cases h with
  | same => exact failed
  | exceeded failed' complex =>
    cases failed'.symm.trans failed
    exact absurd complex other

end Raised

theorem node_raised (le : low ≤ high) (e : Expr) (depth : Nat) :
    Raised (Operand.node low e depth) (Operand.node high e depth) := by
  rw [Operand.node, Operand.node]
  by_cases deep : low < depth
  · rw [if_pos deep]
    exact .exceeded rfl rfl
  · rw [if_neg deep, if_neg (by omega)]
    exact .same

theorem complete_raised (le : low ≤ high) (p : Pending) :
    Raised (p.complete low held) (p.complete high held) := by
  cases p <;> exact node_raised le _ _

theorem close_raised (le : low ≤ high) (e : Enclosure) :
    Raised (e.close low held) (e.close high held) := by
  cases e with
  | group => exact .same
  | brackets object span => exact node_raised le _ _

theorem settle_raised (le : low ≤ high) (power : Nat) :
    Raised (settle low power frames held) (settle high power frames held) := by
  induction frames generalizing held with
  | nil => exact .same
  | cons f rest ih =>
    cases f with
    | enclosing e => exact .same
    | pending p =>
      by_cases holds : p.threshold < power
      · have firm : Firm power (.pending p :: rest) := holds
        rw [settle_of_firm firm, settle_of_firm firm]
        exact .same
      · rw [settle_of_le (Nat.not_lt.mp holds), settle_of_le (Nat.not_lt.mp holds)]
        exact (complete_raised le p).bind fun made => ih

theorem approachOperator_raised (le : low ≤ high) :
    Raised (approachOperator low t frames held) (approachOperator high t frames held) :=
  (settle_raised le _).bind fun _ => .same

theorem approach_raised (le : low ≤ high) (s : State) :
    Raised (approach low t s) (approach high t s) := by
  cases s with
  | operator frames held => exact approachOperator_raised le
  | operand frames =>
    by_cases omits : Omits t frames
    · obtain ⟨closes, first, span, rest, rfl⟩ := omits
      rw [approach_of_omits closes, approach_of_omits closes]
      exact (complete_raised le _).bind fun made => approachOperator_raised le
    · rw [approach_of_not_omits omits, approach_of_not_omits omits]
      by_cases full : low ≤ frames.length
      · rw [if_pos full]
        exact .exceeded rfl rfl
      · rw [if_neg full, if_neg (by omega)]
        exact .same

theorem take_raised (le : low ≤ high) (action : Action) :
    Raised (take low t action) (take high t action) := by
  cases action with
  | start frames => exact .same
  | extend frames held => exact .same
  | close e frames held => exact (close_raised le e).bind fun made => .same

theorem finish_raised (le : low ≤ high) (s : State) :
    Raised (finish low t s) (finish high t s) := by
  cases s with
  | operand frames =>
    rw [finish, finish]
    by_cases full : low ≤ frames.length
    · rw [if_pos full]
      exact .exceeded rfl rfl
    · rw [if_neg full, if_neg (by omega)]
      exact .same
  | operator frames held => exact (settle_raised le 0).bind fun _ => .same

/-- Under a higher cap a reading goes the same way, at least as far. -/
theorem run_raised (le : low ≤ high) (last : Except (Located LexError) Token) (ts : List Token)
    (s : State) : Raised (run low last ts s) (run high last ts s) := by
  induction ts generalizing s with
  | nil =>
    cases last with
    | error e => exact .same
    | ok eof => exact finish_raised le s
  | cons t ts ih =>
    apply (approach_raised le s).bind
    intro action
    apply Raised.bind .same
    intro _
    exact (take_raised le action).bind ih

/-! ### Flat chains -/

/-- The tokens of so many atoms with operators of one level between them. -/
inductive FlatChain (level : Nat) : Nat → List Token → Prop where
  | atom {t : Token} : t.IsAtom → FlatChain level 1 [t]
  | link {t : Token} {op : Joiner} {k : Nat} {w : List Token} : t.IsAtom → op.level = level →
      FlatChain level k w → FlatChain level (k + 1) (t :: op.token :: w)

variable {cap level k limit : Nat} {w : List Token} {op : Joiner}

theorem FlatChain.pos (chain : FlatChain level k w) : 0 < k := by
  cases chain <;> exact Nat.succ_pos _

/-- What has been read amounts to an expression of a certain depth as soon as a token comes that
binds no more tightly than a limit. -/
def Amounts (cap limit depth : Nat) (s : State) : Prop :=
  ∃ frames held x, s = .operator frames held ∧ x.depth = depth ∧
    ∀ power ≤ limit, settle cap power frames held = .ok ([], ⟨x, depth⟩)

/-- An atom makes what has been read amount to an expression of a certain depth. -/
def WantsAtom (cap limit depth : Nat) (frames : List Frame) : Prop :=
  frames.length < cap ∧ ∀ x, x.depth = 1 → Amounts cap limit depth (.operator frames (.leaf x))

theorem wantsAtom_nil (room : 0 < cap) : WantsAtom cap limit 1 [] :=
  ⟨room, fun x one => ⟨[], _, x, rfl, one, fun _ _ => rfl⟩⟩

/-- An operator adds one to the depth of what is before it. -/
theorem wantsAtom_joiner {depth : Nat} {x : Expr} (limited : limit ≤ op.threshold)
    (deep : x.depth = depth) (pos : 0 < depth) (room : depth < cap) :
    WantsAtom cap limit (depth + 1) [.pending (op.pending ⟨x, depth⟩)] := by
  refine ⟨Nat.lt_of_le_of_lt pos room, fun y one => ?_⟩
  have more : max depth 1 + 1 = depth + 1 := by rw [Nat.max_eq_left pos]
  have completed : (op.pending ⟨x, depth⟩).complete cap (.leaf y) =
      .ok ⟨op.build x y, depth + 1⟩ := by
    have node (e : Expr) : Operand.node cap e (max depth 1 + 1) = .ok ⟨e, depth + 1⟩ := by
      rw [Operand.node, if_neg (by omega), more]
    cases op <;> exact node _
  refine ⟨_, _, op.build x y, rfl, ?_, fun power le => ?_⟩
  · cases op <;> simp only [Joiner.build, Expr.depth, deep, one, more]
  · have gives : power ≤ (op.pending ⟨x, depth⟩).threshold := by
      rw [Joiner.threshold_pending]
      exact Nat.le_trans le limited
    rw [settle_of_le gives, completed]
    rfl

theorem step_atom_amounts {depth : Nat} (atom : t.IsAtom)
    (wants : WantsAtom cap limit depth frames) :
    ∃ s, step cap (.operand frames) t = .ok s ∧ Amounts cap limit depth s := by
  obtain ⟨room, amounts⟩ := wants
  obtain ⟨x, one, taken⟩ := @takeStart_atom t frames atom
  refine ⟨_, ?_, amounts x one⟩
  rw [step, approach_of_not_omits fun omits => kind_ne_of_isAtom atom omits.1,
    if_neg (Nat.not_le.mpr room)]
  exact taken

theorem step_joiner_wantsAtom {depth : Nat} {s : State} (groups : op.kind.bindingPower = limit)
    (limited : limit ≤ op.threshold) (pos : 0 < depth) (room : depth < cap)
    (amounts : Amounts cap limit depth s) :
    ∃ frames, step cap s op.token = .ok (.operand frames) ∧
      WantsAtom cap limit (depth + 1) frames := by
  obtain ⟨rest, held, x, rfl, deep, settled⟩ := amounts
  refine ⟨_, ?_, wantsAtom_joiner limited deep pos room⟩
  have same : op.token.kind.bindingPower = limit := groups
  rw [step_of_binds op.bindingPower_pos, same, settled limit (Nat.le_refl _)]
  exact takeExtend_joiner op

/-- A flat chain adds one to the depth for each operator, if there is room for so many. -/
theorem steps_flatChain (chain : FlatChain level k w) (some : 0 < level) (left : level < 8)
    {read : Nat} (wants : WantsAtom cap (Joiner.levelPower level) (read + 1) frames)
    (room : read + k ≤ cap) :
    ∃ s, steps cap (.operand frames) w = .ok s ∧
      Amounts cap (Joiner.levelPower level) (read + k) s := by
  induction chain generalizing frames read with
  | atom atom =>
    rw [steps_singleton]
    exact step_atom_amounts atom wants
  | @link t op k w atom same chain ih =>
    subst same
    obtain ⟨s, taken, amounts⟩ := step_atom_amounts atom wants
    have limited : Joiner.levelPower op.level ≤ op.threshold := by
      rw [op.threshold_eq]
      exact Joiner.levelPower_le _ op.level_le _ (Nat.le_refl _) left some
    have one := chain.pos
    obtain ⟨frames', taken', wants'⟩ :=
      step_joiner_wantsAtom op.bindingPower_kind limited (Nat.succ_pos _) (by omega) amounts
    obtain ⟨s', steps', amounts'⟩ := ih wants' (by omega)
    refine ⟨s', ?_, ?_⟩
    · rw [steps_cons, taken]
      change steps cap s (op.token :: w) = _
      rw [steps_cons, taken']
      exact steps'
    · rwa [Nat.add_right_comm] at amounts'

/-- A flat chain by itself is read as an expression that is as deep as the chain has atoms. -/
theorem run_flatChain {eof : Token} (chain : FlatChain level k w) (some : 0 < level)
    (left : level < 8) (room : k ≤ cap) :
    ∃ e, run cap (.ok eof) w (.operand []) = .ok e ∧ e.depth = k := by
  have wants : WantsAtom cap (Joiner.levelPower level) (0 + 1) [] :=
    wantsAtom_nil (Nat.lt_of_lt_of_le chain.pos room)
  obtain ⟨s, taken, amounts⟩ := steps_flatChain chain some left wants (by omega)
  obtain ⟨rest, held, x, rfl, deep, settled⟩ := amounts
  refine ⟨x, ?_, by omega⟩
  rw [run_eq_steps, taken]
  change settle cap 0 rest held >>= _ = _
  rw [settled 0 (Nat.zero_le _)]
  rfl

theorem IsTooComplex.message {e : Located ReadError} (complex : IsTooComplex e) :
    (ReadError.report e).message = "expression too complex" := by
  obtain ⟨cause, span⟩ := e
  have same : cause = .grammatical .tooComplex := complex
  rw [same]
  rfl

theorem parse_raised (le : low ≤ high) (source : String) :
    Raised (Expr.parse source low) (Expr.parse source high) :=
  run_raised le _ _ _

theorem parse_of_run_plain {source : String} {eof : Token} {x : Expr}
    (lexed : (Scan.of source).last = .ok eof)
    (read : run cap (.ok eof.plain) ((Scan.of source).tokens.map Token.plain) (.operand []) =
      .ok x) :
    ∃ e, Expr.parse source cap = .ok e ∧ e.plain = x := by
  rw [run_plain] at read
  rw [Expr.parse, ofScan, lexed]
  cases ran : run cap (.ok eof) (Scan.of source).tokens (.operand []) with
  | ok e =>
    rw [ran] at read
    exact ⟨e, rfl, Except.ok.inj read⟩
  | error failure =>
    rw [ran] at read
    cases read

end JsonQuery.Parse

namespace JsonQuery.Arena

open Parse

/-- A source whose tokens are a flat chain is accepted under the caps from the number of its
atoms. -/
theorem parse_flatChain_iff {source : String} {eof : Token} {level k : Nat} (some : 0 < level)
    (left : level < 8) (lexed : (Scan.of source).last = .ok eof)
    (chain : FlatChain level k ((Scan.of source).tokens.map Token.plain)) (cap : Nat) :
    (∃ arena, parse source cap = .ok arena) ↔ k ≤ cap := by
  have reads (cap : Nat) (room : k ≤ cap) :
      ∃ e, Expr.parse source cap = .ok e ∧ e.depth = k := by
    obtain ⟨x, read, deep⟩ := run_flatChain chain some left room
    obtain ⟨e, parsed, rfl⟩ := parse_of_run_plain lexed read
    rw [Expr.plain, Expr.depth_mapSpan] at deep
    exact ⟨e, parsed, deep⟩
  constructor
  · rintro ⟨arena, accepted⟩
    rcases read_cases source cap with ⟨e, read, shallow, -⟩ | ⟨e, forest, failed, -⟩
    · obtain ⟨e', read', deep⟩ := reads (max cap k) (Nat.le_max_right _ _)
      have again := (parse_raised (Nat.le_max_left cap k) source).eq_ok read
      cases again.symm.trans read'
      exact deep ▸ shallow
    · obtain ⟨e', read⟩ := exists_parse_eq_ok_iff.mp ⟨arena, accepted⟩
      cases failed.symm.trans read
  · intro room
    obtain ⟨e, read, -⟩ := reads cap room
    exact exists_parse_eq_ok_iff.mpr ⟨e, read⟩

/-- A cap only adds one way to fail. What is accepted under a cap is accepted under every higher
one, and is the same; what fails in another way fails in the same way under every higher cap; and
what is accepted under one cap and not under a lower one is too complex for the lower one. A flat
chain of names, strings and numbers with operators that group to the left needs a cap of at least
the number of its atoms, and no more. -/
theorem parse_under_caps (source : String) :
    (∀ low high, low ≤ high →
      (∀ arena, parse source low = .ok arena → parse source high = .ok arena) ∧
      (∀ e, parse source low = .error (.failed e) →
        (ReadError.report e).message ≠ "expression too complex" →
        parse source high = .error (.failed e)) ∧
      ∀ arena stop, parse source high = .ok arena → parse source low = .error stop →
        ∃ e, stop = .failed e ∧ (ReadError.report e).message = "expression too complex") ∧
    ∀ eof level k, 0 < level → level < 8 → (Scan.of source).last = .ok eof →
      FlatChain level k ((Scan.of source).tokens.map Token.plain) →
      ∀ cap, (∃ arena, parse source cap = .ok arena) ↔ k ≤ cap := by
  refine ⟨fun low high le => ⟨?_, ?_, ?_⟩, fun eof level k some left lexed chain cap =>
    parse_flatChain_iff some left lexed chain cap⟩
  · intro arena accepted
    obtain ⟨e, read⟩ := exists_parse_eq_ok_iff.mp ⟨arena, accepted⟩
    have read' : Expr.parse source high = .ok e := (parse_raised le source).eq_ok read
    rw [parse_eq, read] at accepted
    rw [parse_eq, read', ← accepted]
  · intro e failed other
    rw [parse_eq_failed_iff] at failed ⊢
    exact (parse_raised le source).eq_error failed fun complex => other complex.message
  · intro arena stop accepted failed
    obtain ⟨e, read⟩ := exists_parse_eq_ok_iff.mp ⟨arena, accepted⟩
    rcases read_cases source low with ⟨e', read', -⟩ | ⟨failure, forest, read', -⟩
    · rw [parse_eq, read'] at failed
      cases failed
    · rw [parse_eq, read'] at failed
      cases failed
      refine ⟨failure, rfl, IsTooComplex.message ?_⟩
      by_contra other
      cases read.symm.trans ((parse_raised le source).eq_error read' other)

/-- Three atoms need a cap of three, and no cap helps where an operand is missing. -/
theorem parse_under_caps_sum :
    let source := "1 + \"b\" - c"
    let missing := ParseError.incomplete.atSpan ⟨3, 0⟩
    (Scan.of source).last = .ok (⟨.eof, "", ⟨11, 0⟩⟩ : Token) ∧
      FlatChain 5 3 ((Scan.of source).tokens.map Token.plain) ∧
      (∃ arena, parse source 3 = .ok arena ∧ parse source 4 = .ok arena) ∧
      (∃ e, parse source 2 = .error (.failed e) ∧
        (ReadError.report e).message = "expression too complex") ∧
      parse "a +" 3 = .error (.failed missing) ∧
      (ReadError.report missing).message ≠ "expression too complex" ∧
      parse "a +" 4 = .error (.failed missing) := by
  intro source missing
  have lexed : (Scan.of "1 + \"b\" - c").last = .ok ⟨.eof, "", ⟨11, 0⟩⟩ := by
    with_unfolding_all rfl
  have chain : FlatChain 5 3 ((Scan.of "1 + \"b\" - c").tokens.map Token.plain) := by
    have scanned : (Scan.of "1 + \"b\" - c").tokens.map Token.plain =
        [⟨.number, "1", ⟨0, 0⟩⟩, Joiner.token (.binary (.arithmetic .add)),
          ⟨.string, "b", ⟨0, 0⟩⟩, Joiner.token (.binary (.arithmetic .subtract)),
          ⟨.identifier, "c", ⟨0, 0⟩⟩] := by
      with_unfolding_all rfl
    have one : Token.IsAtom ⟨.number, "1", ⟨0, 0⟩⟩ := by
      change "1".toList.count '.' ≤ 1
      decide
    rw [scanned]
    exact .link one rfl (.link trivial rfl (.atom trivial))
  obtain ⟨caps, chains⟩ := parse_under_caps "1 + \"b\" - c"
  have needs := chains _ 5 3 (by decide) (by decide) lexed chain
  obtain ⟨arena, accepted⟩ := (needs 3).mpr (by decide)
  obtain ⟨same, -, -⟩ := caps 3 4 (by decide)
  have refused : ∃ stop, parse "1 + \"b\" - c" 2 = .error stop := by
    cases tried : parse "1 + \"b\" - c" 2 with
    | error stop => exact ⟨stop, rfl⟩
    | ok arena => exact absurd ((needs 2).mp ⟨arena, tried⟩) (by decide)
  obtain ⟨stop, failed⟩ := refused
  obtain ⟨-, -, complex⟩ := caps 2 3 (by decide)
  obtain ⟨e, rfl, message⟩ := complex arena stop accepted failed
  have lacks : parse "a +" 3 = .error (.failed missing) :=
    parse_eq_failed_iff.mpr (by with_unfolding_all rfl)
  have other : (ReadError.report missing).message ≠ "expression too complex" := by decide
  obtain ⟨-, stays, -⟩ := (parse_under_caps "a +").1 3 4 (by decide)
  exact ⟨lexed, chain, ⟨arena, accepted, same arena accepted⟩, ⟨e, failed, message⟩, lacks, other,
    stays missing lacks other⟩

end JsonQuery.Arena
