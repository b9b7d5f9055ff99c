import JsonQuery.Proofs.Parse.Grammar
import JsonQuery.Proofs.Parse.Precedence

/-! Signs within products. Without signs the factors of a product are grouped to the left. A sign is
read like one at the beginning of an expression, wherever it stands, so it applies to the product of
all factors from its own on. -/
namespace JsonQuery.Parse

variable {cap limit : Nat} {t : Token} {frames : List Frame} {w : List Token} {x y : Expr}

inductive Sign where
  | plus
  | minus

namespace Sign

def op : Sign → UnaryOp
  | .plus => .plus
  | .minus => .minus

def token (s : Sign) : Token := ⟨.addSub, s.op.symbol, ⟨0, 0⟩⟩

def apply (s : Sign) (x : Expr) : Expr := .unary s.op x ⟨0, 0⟩

def pending (s : Sign) : Pending := .unary s.op ⟨0, 0⟩

theorem threshold_pending (s : Sign) : s.pending.threshold = TokenKind.addSub.bindingPower := by
  cases s <;> rfl

end Sign

structure Factor where
  op : Joiner
  multiplies : op.kind = .mulDiv
  sign : Option Sign
  operand : Expr

namespace Factor

variable (f : Factor)

def signed : Expr :=
  match f.sign with
  | none => f.operand
  | some s => s.apply f.operand

theorem bindingPower_op : f.op.kind.bindingPower = TokenKind.mulDiv.bindingPower :=
  congrArg TokenKind.bindingPower f.multiplies

/-- Products group to the left. -/
theorem threshold_op : f.op.threshold = TokenKind.mulDiv.bindingPower := by
  obtain ⟨op, multiplies, sign, operand⟩ := f
  dsimp only
  cases op with
  | binary op =>
    cases op with
    | arithmetic op => cases op <;> first | rfl | cases multiplies
    | _ => cases multiplies
  | _ => cases multiplies

end Factor

/-- Names and numbers. -/
inductive Atom : Token → Expr → Prop where
  | identifier (name : String) :
      Atom ⟨.identifier, name, ⟨0, 0⟩⟩ (.identifier name ⟨0, 0⟩)
  | number {digits : String} {n : Float} : Number.ofLiteral? digits.toList = some n →
      Atom ⟨.number, digits, ⟨0, 0⟩⟩ (.literal (.number n) ⟨0, 0⟩)

inductive Factors : List Token → List Factor → Prop where
  | nil : Factors [] []
  | cons {t : Token} {w : List Token} {fs : List Factor} (f : Factor) : Atom t f.operand →
      Factors w fs → Factors (f.op.token :: (f.sign.toList.map Sign.token ++ t :: w)) (f :: fs)

/-- The tokens of a product of names and numbers, any of which may have a sign except the first. -/
def Product (ts : List Token) (x : Expr) (fs : List Factor) : Prop :=
  ∃ t w, ts = t :: w ∧ Atom t x ∧ Factors w fs

/-- Factors are grouped to the left, each with its own sign. -/
def grouped (x : Expr) (fs : List Factor) : Expr :=
  fs.foldl (fun product f => f.op.build product f.signed) x

/-- Factors are grouped to the left up to the first one with a sign, and this sign applies to the
product of all that follows it. -/
def signedTree (x : Expr) : List Factor → Expr
  | [] => x
  | f :: fs =>
    match f.sign with
    | none => signedTree (f.op.build x f.operand) fs
    | some s => f.op.build x (s.apply (signedTree f.operand fs))

@[simp] theorem grouped_nil (x : Expr) : grouped x [] = x := rfl

@[simp] theorem grouped_cons (x : Expr) (f : Factor) (fs : List Factor) :
    grouped x (f :: fs) = grouped (f.op.build x f.signed) fs := rfl

theorem grouped_concat (x : Expr) (f : Factor) (fs : List Factor) :
    grouped x (fs ++ [f]) = f.op.build (grouped x fs) f.signed := by
  simp only [grouped, List.foldl_append, List.foldl_cons, List.foldl_nil]

theorem signedTree_of_none {f : Factor} {fs : List Factor} (unsigned : f.sign = none) :
    signedTree x (f :: fs) = signedTree (f.op.build x f.operand) fs := by
  rw [signedTree, unsigned]

theorem signedTree_of_some {f : Factor} {fs : List Factor} {s : Sign} (sign : f.sign = some s) :
    signedTree x (f :: fs) = f.op.build x (s.apply (signedTree f.operand fs)) := by
  rw [signedTree, sign]

namespace Joiner

theorem children_build (op : Joiner) (a b : Expr) : (op.build a b).children = [a, b] := by
  cases op <;> rfl

theorem size_build (op : Joiner) (a b : Expr) : (op.build a b).size = a.size + b.size + 1 := by
  cases op <;> rfl

end Joiner

theorem size_le_grouped (x : Expr) (fs : List Factor) : x.size ≤ (grouped x fs).size := by
  induction fs generalizing x with
  | nil => exact Nat.le_refl _
  | cons f fs ih =>
    have larger := ih (f.op.build x f.signed)
    rw [f.op.size_build] at larger
    rw [grouped_cons]
    omega

/-- With further factors after it, the left side of the root is more than what they multiply. -/
theorem grouped_ne_build {fs : List Factor} (more : fs ≠ []) (op : Joiner) (a b z : Expr) :
    grouped (op.build a b) fs ≠ op.build a z := by
  obtain ⟨before, last, rfl⟩ : ∃ before last, fs = before ++ [last] :=
    ⟨_, _, (List.dropLast_concat_getLast more).symm⟩
  intro same
  rw [grouped_concat] at same
  have sides := congrArg Expr.children same
  rw [Joiner.children_build, Joiner.children_build] at sides
  have left : grouped (op.build a b) before = a := (List.cons.inj sides).1
  have larger := size_le_grouped (op.build a b) before
  rw [left, op.size_build] at larger
  omega

/-- Both ways to group agree when at most the last factor has a sign. -/
theorem signedTree_eq_grouped_iff (x : Expr) (fs : List Factor) :
    signedTree x fs = grouped x fs ↔ ∀ f ∈ fs.dropLast, f.sign = none := by
  induction fs generalizing x with
  | nil => simp [signedTree]
  | cons f fs ih =>
    rw [grouped_cons]
    cases sign : f.sign with
    | none =>
      have own : f.signed = f.operand := by rw [Factor.signed, sign]
      rw [signedTree_of_none sign, own, ih]
      cases fs with
      | nil => simp
      | cons g fs => simp [sign]
    | some s =>
      have own : f.signed = s.apply f.operand := by rw [Factor.signed, sign]
      rw [signedTree_of_some sign, own]
      cases fs with
      | nil => simp [signedTree]
      | cons g fs =>
        have different := grouped_ne_build (List.cons_ne_nil g fs) f.op x (s.apply f.operand)
          (s.apply (signedTree f.operand (g :: fs)))
        simp only [different.symm, false_iff]
        intro unsigned
        rw [unsigned f (by simp)] at sign
        cases sign

theorem Atom.takeStart_eq (h : Atom t x) :
    takeStart t frames = .ok (.operator frames (.leaf x)) := by
  cases h with
  | identifier name => rfl
  | number value =>
    unfold takeStart
    dsimp only
    rw [value]
    rfl

theorem Atom.step (h : Atom t x) :
    Ensures (fun s => ∃ depth, s = .operator frames ⟨x, depth⟩) IsTooComplex
      (step cap (.operand frames) t) := by
  apply step_of_start
  · cases h <;> simp
  · rw [h.takeStart_eq]
    exact ⟨1, rfl⟩

theorem step_signToken (s : Sign) :
    Ensures (· = .operand (.pending s.pending :: frames)) IsTooComplex
      (step cap (.operand frames) s.token) := by
  apply step_of_start
  · simp [Sign.token]
  · cases s <;> exact rfl

/-- What has been read is settled to a tree by whatever binds no more tightly than a limit. -/
def SettlesTo (cap limit : Nat) (frames : List Frame) (x : Expr) (s : State) : Prop :=
  ∃ rest held, s = .operator rest held ∧ ∀ power ≤ limit, ∀ post : List Frame × Operand → Prop,
    (∀ depth, Ensures post IsTooComplex (settle cap power frames ⟨x, depth⟩)) →
    Ensures post IsTooComplex (settle cap power rest held)

theorem settlesTo_operand (depth : Nat) :
    SettlesTo cap limit frames x (.operator frames ⟨x, depth⟩) :=
  ⟨frames, _, rfl, fun _ _ _ settled => settled depth⟩

/-- What is settled to the operand of an operator is settled to its node as well. -/
theorem SettlesTo.build {s : State} {op : Joiner} {depth : Nat} (limited : limit ≤ op.threshold)
    (h : SettlesTo cap limit (.pending (op.pending ⟨x, depth⟩) :: frames) y s) :
    SettlesTo cap limit frames (op.build x y) s := by
  obtain ⟨rest, held, rfl, settles⟩ := h
  refine ⟨rest, held, rfl, fun power le post settled => settles power le post fun depth' => ?_⟩
  have gives : power ≤ (op.pending ⟨x, depth⟩).threshold := by
    rw [Joiner.threshold_pending]
    exact Nat.le_trans le limited
  rw [settle_of_le gives]
  apply (complete_joiner op ⟨x, depth⟩).bind
  rintro ⟨e, depth⟩ rfl
  exact settled depth

theorem SettlesTo.sign {s : State} {sign : Sign} (limited : limit ≤ sign.pending.threshold)
    (h : SettlesTo cap limit (.pending sign.pending :: frames) y s) :
    SettlesTo cap limit frames (sign.apply y) s := by
  obtain ⟨rest, held, rfl, settles⟩ := h
  refine ⟨rest, held, rfl, fun power le post settled => settles power le post fun depth => ?_⟩
  rw [settle_of_le (Nat.le_trans le limited)]
  apply (node_ensures _ _).bind
  rintro _ rfl
  exact settled _

theorem SettlesTo.mono {limit' : Nat} {s : State} (le : limit' ≤ limit)
    (h : SettlesTo cap limit frames x s) : SettlesTo cap limit' frames x s := by
  obtain ⟨rest, held, same, settles⟩ := h
  exact ⟨rest, held, same, fun power below => settles power (Nat.le_trans below le)⟩

/-- An operator of products takes what has been read as its left side. -/
theorem SettlesTo.step_op {s : State} (f : Factor)
    (binds : Firm TokenKind.mulDiv.bindingPower frames)
    (h : SettlesTo cap TokenKind.mulDiv.bindingPower frames x s) :
    Ensures (fun s' => ∃ depth, s' = .operand (.pending (f.op.pending ⟨x, depth⟩) :: frames))
      IsTooComplex (step cap s f.op.token) := by
  obtain ⟨rest, held, rfl, settles⟩ := h
  have power : f.op.token.kind.bindingPower = TokenKind.mulDiv.bindingPower := f.bindingPower_op
  have settled : Ensures (fun r => ∃ depth, r = (frames, ⟨x, depth⟩)) IsTooComplex
      (settle cap TokenKind.mulDiv.bindingPower rest held) := by
    apply settles _ (Nat.le_refl _)
    intro depth
    rw [settle_of_firm binds]
    exact ⟨depth, rfl⟩
  rw [step_of_binds f.op.bindingPower_pos, power]
  apply settled.bind
  rintro _ ⟨depth, rfl⟩
  rw [takeExtend_joiner]
  exact ⟨depth, rfl⟩

/-- Factors are read one after another. One with a sign opens a construct that all further factors
bind into, so they are read as a product of their own. -/
theorem SettlesTo.steps_factors {s : State} {fs : List Factor} (tokens : Factors w fs)
    (binds : Firm TokenKind.mulDiv.bindingPower frames)
    (h : SettlesTo cap TokenKind.mulDiv.bindingPower frames x s) :
    Ensures (SettlesTo cap TokenKind.addSub.bindingPower frames (signedTree x fs)) IsTooComplex
      (steps cap s w) := by
  induction tokens generalizing s x frames with
  | nil => exact h.mono (by decide)
  | @cons t w fs f atom _ ih =>
    rw [steps_cons]
    apply (h.step_op f binds).bind
    rintro _ ⟨depth, rfl⟩
    cases sign : f.sign with
    | none =>
      rw [Option.toList_none, List.map_nil, List.nil_append, steps_cons, signedTree_of_none sign]
      apply atom.step.bind
      rintro _ ⟨depth', rfl⟩
      exact ih binds ((settlesTo_operand depth').build (Nat.le_of_eq f.threshold_op.symm))
    | some sg =>
      rw [Option.toList_some, List.map_singleton, List.singleton_append, steps_cons,
        signedTree_of_some sign]
      apply (step_signToken sg).bind
      rintro _ rfl
      rw [steps_cons]
      apply atom.step.bind
      rintro _ ⟨depth', rfl⟩
      have inner : Firm TokenKind.mulDiv.bindingPower
          (.pending sg.pending :: .pending (f.op.pending ⟨x, depth⟩) :: frames) := by
        rw [Firm, sg.threshold_pending]
        decide
      apply (ih inner (settlesTo_operand depth')).mono
      intro s' product
      have limited : TokenKind.addSub.bindingPower ≤ f.op.threshold := by
        rw [f.threshold_op]
        decide
      exact (product.sign (Nat.le_of_eq sg.threshold_pending.symm)).build limited

/-- A product by itself is read to the end. -/
theorem run_of_product {eof : Token} {fs : List Factor} (product : Product w x fs) :
    Ensures (· = signedTree x fs) IsTooComplex (run cap (.ok eof) w (.operand [])) := by
  obtain ⟨t, rest, rfl, atom, factors⟩ := product
  have read : Ensures (SettlesTo cap TokenKind.addSub.bindingPower [] (signedTree x fs))
      IsTooComplex (steps cap (.operand []) (t :: rest)) := by
    rw [steps_cons]
    apply atom.step.bind
    rintro _ ⟨depth, rfl⟩
    exact (settlesTo_operand depth).steps_factors factors trivial
  rw [run_eq_steps]
  apply read.bind
  rintro _ ⟨frames, held, rfl, settles⟩
  have settled : Ensures (fun r => r.1 = [] ∧ r.2.expr = signedTree x fs) IsTooComplex
      (settle cap 0 frames held) := by
    apply settles 0 (Nat.zero_le _)
    intro depth
    exact ⟨rfl, rfl⟩
  apply settled.bind
  rintro ⟨_, r⟩ ⟨rfl, made⟩
  exact made

/-- A product is accepted under a cap above the number of its tokens. -/
theorem accepts_product {source : String} {eof : Token} {fs : List Factor}
    (lexed : (Scan.of source).last = .ok eof)
    (product : Product ((Scan.of source).tokens.map Token.plain) x fs)
    (room : (Scan.of source).tokens.length < cap) :
    ∃ e, Expr.parse source cap = .ok e ∧ e.plain = signedTree x fs :=
  accepts_of_run (Scans.toList_iff.mpr ⟨rfl, eof, lexed⟩) (fun _ => run_of_product product) room

/-- The factors of a product are grouped to the left, with each sign on its own operand, exactly
when no factor but the last has a sign. -/
theorem parse_product {source : String} {eof : Token} {fs : List Factor}
    (lexed : (Scan.of source).last = .ok eof)
    (product : Product ((Scan.of source).tokens.map Token.plain) x fs)
    (room : (Scan.of source).tokens.length < cap) :
    ∃ e, Expr.parse source cap = .ok e ∧ e.plain = signedTree x fs ∧
      (e.plain = grouped x fs ↔ ∀ f ∈ fs.dropLast, f.sign = none) := by
  obtain ⟨e, accepted, same⟩ := accepts_product lexed product room
  refine ⟨e, accepted, same, ?_⟩
  rw [same]
  exact signedTree_eq_grouped_iff x fs

namespace Factor

def multiplying (sign : Option Sign) (operand : Expr) : Factor :=
  ⟨.binary (.arithmetic .multiply), rfl, sign, operand⟩

def dividing (sign : Option Sign) (operand : Expr) : Factor :=
  ⟨.binary (.arithmetic .divide), rfl, sign, operand⟩

end Factor

/-- A sign at the end leaves a product grouped to the left. -/
theorem parse_product_lastSign :
    let source := "a * 2 / -b"
    ∃ n, Number.ofLiteral? "2".toList = some n ∧
      let fs := [Factor.multiplying none (.literal (.number n) ⟨0, 0⟩),
        .dividing (some .minus) (plainName "b")]
      (Scan.of source).last = .ok (⟨.eof, "", ⟨10, 0⟩⟩ : Token) ∧
        Product ((Scan.of source).tokens.map Token.plain) (plainName "a") fs ∧
        (Scan.of source).tokens.length < 7 ∧
        ∃ e, Expr.parse source 7 = .ok e ∧ e.plain = grouped (plainName "a") fs := by
  intro source
  obtain ⟨n, value⟩ : ∃ n, Number.ofLiteral? "2".toList = some n :=
    Option.isSome_iff_exists.mp ((Number.isSome_ofLiteral?_iff _).mpr (by decide))
  have lexed : (Scan.of "a * 2 / -b").last = .ok ⟨.eof, "", ⟨10, 0⟩⟩ := by with_unfolding_all rfl
  have scanned : (Scan.of "a * 2 / -b").tokens.map Token.plain =
      [⟨.identifier, "a", ⟨0, 0⟩⟩, ⟨.mulDiv, "*", ⟨0, 0⟩⟩, ⟨.number, "2", ⟨0, 0⟩⟩,
        ⟨.mulDiv, "/", ⟨0, 0⟩⟩, ⟨.addSub, "-", ⟨0, 0⟩⟩, ⟨.identifier, "b", ⟨0, 0⟩⟩] := by
    with_unfolding_all rfl
  have count := congrArg List.length scanned
  rw [List.length_map] at count
  have room : (Scan.of source).tokens.length < 7 := by
    rw [count]
    decide
  have product : Product ((Scan.of source).tokens.map Token.plain) (plainName "a")
      [.multiplying none (.literal (.number n) ⟨0, 0⟩),
        .dividing (some .minus) (plainName "b")] := by
    rw [scanned]
    exact ⟨_, _, rfl, .identifier "a", .cons (.multiplying none _) (.number value)
      (.cons (.dividing (some .minus) _) (.identifier "b") .nil)⟩
  obtain ⟨e, accepted, _, left⟩ := parse_product lexed product room
  refine ⟨n, value, lexed, product, room, e, accepted, left.mpr ?_⟩
  intro f member
  obtain rfl := List.mem_singleton.mp member
  rfl

/-- A sign before the end takes in the factor after it. -/
theorem innerSign_ungrouped :
    let source := "a / -b * c"
    let fs := [Factor.dividing (some .minus) (plainName "b"), .multiplying none (plainName "c")]
    Product ((Scan.of source).tokens.map Token.plain) (plainName "a") fs ∧
      ∀ cap, 6 < cap → ∃ e, Expr.parse source cap = .ok e ∧
        e.plain = .binary (.arithmetic .divide) (plainName "a") (.unary .minus
          (.binary (.arithmetic .multiply) (plainName "b") (plainName "c") ⟨0, 0⟩) ⟨0, 0⟩) ⟨0, 0⟩ ∧
        e.plain ≠ grouped (plainName "a") fs := by
  intro source fs
  have lexed : (Scan.of "a / -b * c").last = .ok ⟨.eof, "", ⟨10, 0⟩⟩ := by with_unfolding_all rfl
  have scanned : (Scan.of "a / -b * c").tokens.map Token.plain =
      [⟨.identifier, "a", ⟨0, 0⟩⟩, ⟨.mulDiv, "/", ⟨0, 0⟩⟩, ⟨.addSub, "-", ⟨0, 0⟩⟩,
        ⟨.identifier, "b", ⟨0, 0⟩⟩, ⟨.mulDiv, "*", ⟨0, 0⟩⟩, ⟨.identifier, "c", ⟨0, 0⟩⟩] := by
    with_unfolding_all rfl
  have count := congrArg List.length scanned
  rw [List.length_map] at count
  have product : Product ((Scan.of source).tokens.map Token.plain) (plainName "a") fs := by
    rw [scanned]
    exact ⟨_, _, rfl, .identifier "a", .cons (.dividing (some .minus) _) (.identifier "b")
      (.cons (.multiplying none _) (.identifier "c") .nil)⟩
  refine ⟨product, fun cap above => ?_⟩
  have room : (Scan.of source).tokens.length < cap := by
    rw [count]
    exact above
  obtain ⟨e, accepted, same⟩ := accepts_product lexed product room
  refine ⟨e, accepted, same, ?_⟩
  rw [same, Ne, signedTree_eq_grouped_iff]
  intro unsigned
  cases unsigned (.dividing (some .minus) (plainName "b")) (.head _)

end JsonQuery.Parse
