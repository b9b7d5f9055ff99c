import JsonQuery.Proofs.Parse.Chain
import JsonQuery.Proofs.Parse.Complexity
import JsonQuery.Proofs.Parse.Context

/-! How chains are read. Up to the root of a chain everything is read as a chain of its own, which
the operator at the root completes; what follows the root is read as a chain within the construct
that the root opens. -/
namespace JsonQuery.Parse

variable {cap power : Nat} {t : Token} {frames : List Frame} {held : Operand} {w : List Token}
variable {x y : Expr} {links : List (Joiner × Expr)}

/-- Tokens that are read as an operand with a certain tree, wherever an operand is looked for. -/
def ReadsAs (w : List Token) (x : Expr) : Prop :=
  ∀ (cap : Nat) (frames : List Frame),
    Ensures (fun s => ∃ depth, s = .operator frames ⟨x, depth⟩) IsTooComplex
      (steps cap (.operand frames) w)

theorem readsAs_leaf (kind : t.kind ≠ .rightBracket)
    (taken : ∀ frames, takeStart t frames = .ok (.operator frames (.leaf x))) : ReadsAs [t] x := by
  intro cap frames
  rw [steps_singleton]
  apply step_of_start kind
  rw [taken]
  exact ⟨1, rfl⟩

theorem threshold_lt_leftBracket (p : Pending) :
    p.threshold < TokenKind.leftBracket.bindingPower := by
  cases p with
  | unary op span => exact (by cases op <;> decide : op.threshold < 60)
  | bound first span => exact (by decide : TokenKind.slice.bindingPower < 60)
  | right op left span =>
    have least : op.threshold < 60 := by
      cases op with
      | arithmetic op => cases op <;> decide
      | inequality op => cases op <;> decide
      | _ => decide
    exact least
  | member object span => exact (by decide : TokenKind.dot.bindingPower < 60)
  | condition items span => exact (by decide : 0 < 60)

/-- An opening bracket binds into every operand. -/
theorem firm_leftBracket (frames : List Frame) :
    Firm TokenKind.leftBracket.bindingPower frames := by
  cases frames with
  | nil => trivial
  | cons f rest =>
    cases f with
    | enclosing e => trivial
    | pending p => exact threshold_lt_leftBracket p

/-- What is accepted by itself can be read up to a closing token. -/
theorem steps_of_run {cap' : Nat} {eof : Token} {e : Expr} {around : Enclosure}
    (h : run cap' (.ok eof) w (.operand []) = .ok e) (closes : t.kind = around.closer) :
    Ensures (fun s => ∃ r made, r.expr = e ∧ around.close cap r = .ok made ∧
        s = .operator frames made) IsTooComplex
      (steps cap (.operand (.enclosing around :: frames)) (w ++ [t])) := by
  rw [run_eq_steps] at h
  obtain ⟨s, read, finished⟩ := bind_eq_ok.mp h
  obtain ⟨inner, held, r, rfl, settled, rfl⟩ := finish_eq_ok finished
  have base := grounded_cons around frames
  rw [steps_append]
  apply ((steps_onto base read).relax fun _ failed => failed.1).bind
  rintro _ rfl
  change Ensures _ _ (steps cap (.operator (inner ++ .enclosing around :: frames) held) [t])
  rw [steps_singleton]
  have inside : Ensures (Exposes around fun rest r' => rest = frames ∧ r' = r) IsTooComplex
      (settle cap 0 (inner ++ .enclosing around :: frames) held) := by
    apply ((settle_onto base settled).relax fun _ failed => failed.1).mono
    rintro _ rfl
    exact ⟨frames, rfl, rfl, rfl⟩
  apply (step_of_closes closes inside).mono
  rintro _ ⟨_, _, made, ⟨rfl, rfl⟩, closed, rfl⟩
  exact ⟨_, made, rfl, closed, rfl⟩

theorem readsAs_group {cap' : Nat} {eof : Token}
    (h : run cap' (.ok eof) w (.operand []) = .ok x) :
    ReadsAs (⟨.leftParen, "(", ⟨0, 0⟩⟩ :: w ++ [⟨.rightParen, ")", ⟨0, 0⟩⟩]) x := by
  intro cap frames
  rw [List.cons_append, steps_cons]
  apply (step_leftParen rfl).bind
  rintro _ rfl
  apply (steps_of_run h rfl).mono
  rintro _ ⟨r, made, rfl, closed, rfl⟩
  cases closed
  exact ⟨r.depth, rfl⟩

theorem readsAs_index {cap' : Nat} {eof : Token} {u : List Token} (object : ReadsAs u y)
    (h : run cap' (.ok eof) w (.operand []) = .ok x) :
    ReadsAs (u ++ ⟨.leftBracket, "[", ⟨0, 0⟩⟩ :: w ++ [⟨.rightBracket, "]", ⟨0, 0⟩⟩])
      (.index y x ⟨0, 0⟩) := by
  intro cap frames
  rw [List.append_assoc, List.cons_append, steps_append]
  apply (object cap frames).bind
  rintro _ ⟨depth, rfl⟩
  rw [steps_cons, step_of_binds (by decide), settle_of_firm (firm_leftBracket frames)]
  apply (steps_of_run h rfl).mono
  rintro _ ⟨r, made, rfl, closed, rfl⟩
  have node : Ensures _ IsTooComplex
      ((Enclosure.brackets ⟨y, depth⟩ ⟨0, 0⟩).close cap r) := node_ensures _ _
  rw [closed] at node
  exact ⟨_, congrArg (State.operator frames) node⟩

def Joiner.token (op : Joiner) : Token := ⟨op.kind, op.symbol, ⟨0, 0⟩⟩

theorem takeExtend_joiner (op : Joiner) :
    takeExtend op.token frames held = .ok (.operand (.pending (op.pending held) :: frames)) := by
  cases op with
  | binary op =>
    cases op with
    | arithmetic op => cases op <;> rfl
    | inequality op => cases op <;> rfl
    | _ => rfl
  | _ => rfl

/-- An operator is completed to its node. -/
theorem complete_joiner (op : Joiner) (left : Operand) :
    Ensures (fun made => made.expr = op.build left.expr held.expr) IsTooComplex
      ((op.pending left).complete cap held) := by
  cases op <;> exact (node_ensures _ _).mono fun made same => congrArg Operand.expr same

inductive Linked : List Token → Expr → List (Joiner × Expr) → Prop where
  | operand {w : List Token} {x : Expr} : ReadsAs w x → Linked w x []
  | link {u w : List Token} {x y : Expr} {op : Joiner} {links : List (Joiner × Expr)} :
      ReadsAs u x → Linked w y links → Linked (u ++ op.token :: w) x ((op, y) :: links)

theorem Linked.split {before after : List (Joiner × Expr)} {op : Joiner}
    (h : Linked w x (before ++ (op, y) :: after)) :
    ∃ u v, w = u ++ op.token :: v ∧ Linked u x before ∧ Linked v y after := by
  induction before generalizing w x with
  | nil =>
    cases h with
    | link first rest => exact ⟨_, _, rfl, .operand first, rest⟩
  | cons link before ih =>
    cases h with
    | link first rest =>
      obtain ⟨u, v, rfl, left, right⟩ := ih rest
      exact ⟨_, v, by simp, .link first left, right⟩

/-- A chain has been read as far as possible. It may be that its last operators wait for what
follows, but whatever does not bind into them settles them to the tree of the chain. -/
def Settles (cap : Nat) (ops : List Joiner) (frames : List Frame) (x : Expr) (s : State) : Prop :=
  ∃ rest held, s = .operator rest held ∧ ∀ (power : Nat) (post : List Frame × Operand → Prop),
    (∀ op ∈ ops, power ≤ op.threshold) →
    (∀ depth, Ensures post IsTooComplex (settle cap power frames ⟨x, depth⟩)) →
    Ensures post IsTooComplex (settle cap power rest held)

/-- A chain is read as its tree, where every operator of it binds into what is open. -/
theorem reads_of_linked (h : Linked w x links)
    (firm : ∀ op ∈ links.map Prod.fst, Firm op.kind.bindingPower frames) :
    Ensures (Settles cap (links.map Prod.fst) frames (tree x links)) IsTooComplex
      (steps cap (.operand frames) w) := by
  induction links using root_induction generalizing w x frames with
  | nil =>
    cases h with
    | operand reads =>
      apply (reads cap frames).mono
      rintro _ ⟨depth, rfl⟩
      refine ⟨frames, _, rfl, ?_⟩
      intro power post _ settled
      rw [tree_nil] at settled
      exact settled depth
  | node before op y after place rooted left right =>
    obtain ⟨u, v, rfl, first, last⟩ := h.split
    simp only [List.map_append, List.map_cons, List.mem_append, List.mem_cons] at firm
    rw [steps_append, tree_append place]
    apply (left first fun b member => firm b (.inl member)).bind
    rintro _ ⟨rest, held, rfl, settles⟩
    have opened : Ensures (fun s => ∃ depth,
        s = .operand (.pending (op.pending ⟨tree x before, depth⟩) :: frames)) IsTooComplex
        (step cap (.operator rest held) op.token) := by
      have binds : Firm op.kind.bindingPower frames := firm op (.inr (.inl rfl))
      have settled : Ensures (fun r => ∃ depth, r = (frames, ⟨tree x before, depth⟩)) IsTooComplex
          (settle cap op.kind.bindingPower rest held) := by
        apply settles _ _ rooted.closes
        intro depth
        rw [settle_of_firm binds]
        exact ⟨depth, rfl⟩
      rw [step_of_binds op.bindingPower_pos]
      apply settled.bind
      rintro _ ⟨depth, rfl⟩
      rw [takeExtend_joiner]
      exact ⟨depth, rfl⟩
    rw [steps_cons]
    apply opened.bind
    rintro _ ⟨depth, rfl⟩
    have firm' : ∀ a ∈ after.map Prod.fst, Firm a.kind.bindingPower
        (.pending (op.pending ⟨tree x before, depth⟩) :: frames) := by
      intro a member
      rw [Firm, Joiner.threshold_pending]
      exact rooted.admits a member
    apply (right last firm').mono
    rintro _ ⟨rest', held', rfl, settles'⟩
    refine ⟨rest', held', rfl, ?_⟩
    intro power post least settled
    simp only [List.map_append, List.map_cons, List.mem_append, List.mem_cons] at least
    apply settles' power post fun a member => least a (.inr (.inr member))
    intro depth'
    -- The root is the last of the open operators, and completing it gives the tree.
    have gives : power ≤ (op.pending ⟨tree x before, depth⟩).threshold := by
      rw [Joiner.threshold_pending]
      exact least op (.inr (.inl rfl))
    rw [settle_of_le gives]
    apply (complete_joiner op ⟨tree x before, depth⟩).bind
    rintro ⟨e, depth⟩ rfl
    exact settled depth

/-- A chain by itself is read to the end. -/
theorem run_of_linked {eof : Token} (h : Linked w x links) :
    Ensures (· = tree x links) IsTooComplex (run cap (.ok eof) w (.operand [])) := by
  have firm : ∀ op ∈ links.map Prod.fst, Firm op.kind.bindingPower [] := fun _ _ => trivial
  rw [run_eq_steps]
  apply (reads_of_linked h firm).bind
  rintro _ ⟨rest, held, rfl, settles⟩
  have settled : Ensures (fun r => r.1 = [] ∧ r.2.expr = tree x links) IsTooComplex
      (settle cap 0 rest held) := by
    apply settles 0 _ fun _ _ => Nat.zero_le _
    intro depth
    exact ⟨rfl, rfl⟩
  apply settled.bind
  rintro ⟨_, r⟩ ⟨rfl, made⟩
  exact made

/-- Reading does not depend on the places of the tokens. -/
theorem run_plain {eof : Token} {ts : List Token} :
    run cap (.ok eof.plain) (ts.map Token.plain) (.operand []) =
      relocate (fun _ => ⟨0, 0⟩) Expr.plain (run cap (.ok eof) ts (.operand [])) := by
  have keeps : KeepsEmpty fun _ => ⟨0, 0⟩ := fun _ => rfl
  exact run_mapSpan keeps eof ts (.operand [])

/-- An accepted text consists of tokens that are accepted without their places. -/
theorem run_of_parse {source : String} {e : Expr} (h : Expr.parse source cap = .ok e) :
    ∃ ts eof, Scans source.toList ts [] ∧ run cap (.ok eof) ts (.operand []) = .ok e.plain := by
  obtain ⟨eof, last⟩ := last_of_run_eq_ok h
  rw [Expr.parse, ofScan, last] at h
  refine ⟨_, eof.plain, Scans.toList_iff.mpr ⟨rfl, eof, last⟩, ?_⟩
  rw [run_plain, h]
  rfl

/-- What is read from the tokens of a text without their places is what the text is accepted as,
under a cap above the number of its tokens. -/
theorem accepts_of_run {source : String} {ts : List Token} (scanned : Scans source.toList ts [])
    (read : ∀ eof, Ensures (· = x) IsTooComplex (run cap (.ok eof) ts (.operand [])))
    (room : (Scan.of source).tokens.length < cap) :
    ∃ e, Expr.parse source cap = .ok e ∧ e.plain = x := by
  obtain ⟨tokens, eof, last⟩ := Scans.toList_iff.mp scanned
  have plain := read eof.plain
  rw [← tokens, run_plain] at plain
  rw [Expr.parse, ofScan, last]
  exact run_eq_ok_of_room room (plain.of_relocate fun _ failed => failed)

theorem OperandText.reads {source : String} (h : OperandText source x) :
    ∃ ts, Scans source.toList ts [] ∧ ReadsAs ts x := by
  induction h with
  | identifier single =>
    exact ⟨_, Scans.toList_iff.mpr single, readsAs_leaf (by simp) fun _ => rfl⟩
  | string single =>
    exact ⟨_, Scans.toList_iff.mpr single, readsAs_leaf (by simp) fun _ => rfl⟩
  | number single value =>
    refine ⟨_, Scans.toList_iff.mpr single, readsAs_leaf (by simp) fun frames => ?_⟩
    unfold takeStart
    dsimp only
    rw [value]
    rfl
  | @group source cap e accepted =>
    obtain ⟨ts, eof, scanned, read⟩ := run_of_parse accepted
    have closing : Scans [')'] [⟨.rightParen, ")", ⟨0, 0⟩⟩] [] :=
      .mark rfl (fun _ => rfl) (.done [])
    have stop : Delimits [')'] := ⟨rfl, rfl, by simp⟩
    have opening : Scans ('(' :: (source.toList ++ [')']))
        (⟨.leftParen, "(", ⟨0, 0⟩⟩ :: (ts ++ [⟨.rightParen, ")", ⟨0, 0⟩⟩])) [] :=
      .mark rfl (fun _ => rfl) (scanned.join stop closing)
    refine ⟨_, ?_, readsAs_group read⟩
    simpa using opening
  | @index object source cap x e _ accepted ih =>
    obtain ⟨us, scanned', reads⟩ := ih
    obtain ⟨ts, eof, scanned, read⟩ := run_of_parse accepted
    have closing : Scans [']'] [⟨.rightBracket, "]", ⟨0, 0⟩⟩] [] :=
      .mark rfl (fun _ => rfl) (.done [])
    have stop : Delimits [']'] := ⟨rfl, rfl, by simp⟩
    have opening : Scans ('[' :: (source.toList ++ [']']))
        (⟨.leftBracket, "[", ⟨0, 0⟩⟩ :: (ts ++ [⟨.rightBracket, "]", ⟨0, 0⟩⟩])) [] :=
      .mark rfl (fun _ => rfl) (scanned.join stop closing)
    refine ⟨_, ?_, readsAs_index reads read⟩
    have stop' : Delimits ('[' :: (source.toList ++ [']'])) := ⟨rfl, rfl, by simp⟩
    simpa using scanned'.join stop' opening

theorem IsBlanks.delimits {text : String} (blanks : IsBlanks text) (rest : List Char) :
    Delimits (text.toList ++ rest) := by
  obtain ⟨some, all⟩ := blanks
  cases split : text.toList with
  | nil => exact absurd (String.toList_eq_nil_iff.mp split) some
  | cons c cs => exact delimits_of_blank (all c (by simp [split])) _

theorem Joiner.read_symbol (op : Joiner) :
    ∃ c cs, op.symbol.toList = c :: cs ∧ Text.isBlank c = false ∧
      Lexeme.read c cs = .ok ⟨op.kind, c :: cs, c :: cs, []⟩ := by
  cases op with
  | binary op =>
    cases op with
    | arithmetic op => cases op <;> exact ⟨_, _, rfl, rfl, rfl⟩
    | inequality op => cases op <;> exact ⟨_, _, rfl, rfl, rfl⟩
    | _ => exact ⟨_, _, rfl, rfl, rfl⟩
  | _ => exact ⟨_, _, rfl, rfl, rfl⟩

theorem Joiner.scans (op : Joiner) : Scans op.symbol.toList [op.token] [] := by
  obtain ⟨c, cs, split, visible, read⟩ := op.read_symbol
  have single := Scans.lexeme visible read (.done [])
  have text : String.ofList (c :: cs) = op.symbol := by rw [← split, String.ofList_toList]
  rw [split, Joiner.token, ← text]
  exact single

theorem Chain.linked {source : String} (h : Chain source x links) :
    ∃ ts, Scans source.toList ts [] ∧ Linked ts x links := by
  induction h with
  | operand text =>
    obtain ⟨ts, scanned, reads⟩ := text.reads
    exact ⟨ts, scanned, .operand reads⟩
  | @link first before after rest x y links op text blanks blanks' _ ih =>
    obtain ⟨us, scanned, reads⟩ := text.reads
    obtain ⟨ts, scanned', linked⟩ := ih
    have tail := op.scans.join (blanks'.delimits _) (scanned'.skip blanks'.2)
    have whole := scanned.join (blanks.delimits _) (tail.skip blanks.2)
    refine ⟨us ++ op.token :: ts, ?_, .link reads linked⟩
    simpa using whole

/-- A chain is accepted under a cap above the number of its tokens, and as its tree. -/
theorem parse_chain {source : String} (chain : Chain source x links)
    (room : (Scan.of source).tokens.length < cap) :
    ∃ e, Expr.parse source cap = .ok e ∧ e.plain = tree x links := by
  obtain ⟨ts, scanned, linked⟩ := chain.linked
  obtain ⟨tokens, eof, last⟩ := Scans.toList_iff.mp scanned
  have read : Ensures (·.plain = tree x links) IsTooComplex
      (run cap (.ok eof) (Scan.of source).tokens (.operand [])) := by
    have plain : Ensures (· = tree x links) IsTooComplex
        (run cap (.ok eof.plain) ts (.operand [])) := run_of_linked linked
    rw [← tokens, run_plain] at plain
    exact plain.of_relocate fun _ failed => failed
  rw [Expr.parse, ofScan, last]
  exact run_eq_ok_of_room room read

def plainName (text : String) : Expr := .identifier text ⟨0, 0⟩

/-- Powers group to the right, a parenthesis and a bracket keep what they hold, and the condition
takes all of it. -/
theorem parse_chain_powers :
    let object : Expr := .index (plainName "x") (plainName "i") ⟨0, 0⟩
    let either : Expr := .binary .or (plainName "a") (plainName "b") ⟨0, 0⟩
    let powers : Expr := .binary (.arithmetic .power) (plainName "n")
      (.binary (.arithmetic .power) (plainName "m") (plainName "k") ⟨0, 0⟩) ⟨0, 0⟩
    let source := "x[i] where n ^ m ^ k < (a or b)"
    (Scan.of source).tokens.length < 17 ∧ ∃ e, Expr.parse source 17 = .ok e ∧
      e.plain = .filter object (.binary (.inequality .less) powers either ⟨0, 0⟩) ⟨0, 0⟩ := by
  intro object either powers source
  have blank : IsBlanks " " := by
    refine ⟨by simp, ?_⟩
    intro c member
    obtain rfl : c = ' ' := by simpa using member
    rfl
  have x : OperandText "x" (plainName "x") := by
    refine .identifier ⟨?_, ⟨.eof, "", ⟨1, 0⟩⟩, ?_⟩ <;> with_unfolding_all rfl
  have n : OperandText "n" (plainName "n") := by
    refine .identifier ⟨?_, ⟨.eof, "", ⟨1, 0⟩⟩, ?_⟩ <;> with_unfolding_all rfl
  have m : OperandText "m" (plainName "m") := by
    refine .identifier ⟨?_, ⟨.eof, "", ⟨1, 0⟩⟩, ?_⟩ <;> with_unfolding_all rfl
  have k : OperandText "k" (plainName "k") := by
    refine .identifier ⟨?_, ⟨.eof, "", ⟨1, 0⟩⟩, ?_⟩ <;> with_unfolding_all rfl
  have i : Expr.parse "i" 16 = .ok (.identifier "i" ⟨0, 1⟩) := by with_unfolding_all rfl
  have choice : Expr.parse "a or b" 16 =
      .ok (.binary .or (.identifier "a" ⟨0, 1⟩) (.identifier "b" ⟨5, 1⟩) ⟨2, 2⟩) := by
    with_unfolding_all rfl
  have indexed : OperandText ("x" ++ "[" ++ "i" ++ "]") object := .index x i
  have parted : OperandText ("(" ++ "a or b" ++ ")") either := .group choice
  have chain := Chain.link .condition indexed blank blank (.link .power n blank blank
    (.link .power m blank blank
      (.link (.binary (.inequality .less)) k blank blank (.operand parted))))
  have count : (Scan.of "x[i] where n ^ m ^ k < (a or b)").tokens.length = 16 := by
    with_unfolding_all rfl
  have room : (Scan.of source).tokens.length < 17 := by rw [count]; decide
  obtain ⟨e, accepted, same⟩ := parse_chain chain room
  refine ⟨room, e, accepted, same.trans ?_⟩
  with_unfolding_all rfl

end JsonQuery.Parse
