import JsonQuery.Proofs.Parse.Reading

/-! The descent and the stack machine agree. Each part of the descent is compared with what the
machine does from the same point on, and the table grows by the nodes of the operand that the
machine holds. The frames of the machine are the calls that the descent is inside of. -/
namespace JsonQuery.Parse

variable {cap n k calls row : Nat} {out : Except (Located ReadError) Expr} {t : Table}
  {r r' : Reader}
  {token : Token} {frames : List Frame} {held left : Operand} {operand : Nat → Reading Nat}
  {span : Span}

/-- What a token has to bind above to continue the innermost operand. -/
def power : List Frame → Nat
  | .pending p :: _ => p.threshold
  | _ => 0

/-- The innermost construct is the operation of the token before. -/
def AfterOperator : List Frame → Bool
  | .pending _ :: _ => true
  | _ => false

theorem firm_of_power_lt {bound : Nat} (binds : power frames < bound) : Firm bound frames := by
  cases frames with
  | nil => trivial
  | cons f rest =>
    cases f with
    | enclosing e => trivial
    | pending p => exact binds

/-- The reader is inside of some operands, with so many tokens left at most. -/
structure Ready (k calls : Nat) (r : Reader) : Prop where
  fresh : r.Fresh
  nesting : r.nesting = calls
  left : r.left ≤ k

theorem Reader.Moved.ready {k' : Nat} (moved : r.Moved r') (ready : Ready k calls r)
    (left : r'.left ≤ k') : Ready k' calls r' :=
  ⟨moved.fresh, moved.nesting.trans ready.nesting, left⟩

structure Due (cap : Nat) (out : Except (Located ReadError) Expr) (k : Nat) (frames : List Frame)
    (t : Table) (r : Reader) : Prop extends Ready k frames.length r where
  awaits : r.previous.any TokenKind.isOperator = AfterOperator frames
  even : t.Even
  table : r.table = t
  same : r.resume cap (.operand frames) = out

/-- The nodes of an operand, when they are added to a table, end with a certain row. -/
structure Listed (cap : Nat) (t : Table) (o : Operand) (row : Nat) : Prop where
  even : t.Even
  last : row + 1 = (t.add o.expr).rows.size
  depth : o.depth = o.expr.depth
  capped : o.depth ≤ cap

structure Held (cap : Nat) (out : Except (Located ReadError) Expr) (k calls : Nat)
    (frames : List Frame) (t : Table) (held : Operand) (row : Nat) (r : Reader) : Prop
    extends Ready k calls r, Listed cap t held row where
  table : r.table = t.add held.expr
  same : r.resume cap (.operator frames held) = out

/-- A failure right after an operand leaves its nodes in the table. -/
theorem Held.fails (h : Held cap out k calls frames t held row r) {e : Located ReadError}
    (same : out = .error e) : Fails out t e r :=
  ⟨same, [held.expr], h.table⟩

/-- The reader has read some operand, inside of one more construct than the frames stand for. -/
def Holds (cap : Nat) (out : Except (Located ReadError) Expr) (k : Nat) (frames : List Frame)
    (t : Table) (row : Nat) (r : Reader) : Prop :=
  ∃ held, Held cap out k (frames.length + 1) frames t held row r

theorem Holds.mono {k' : Nat} (h : Holds cap out k frames t row r) (le : k ≤ k') :
    Holds cap out k' frames t row r := by
  obtain ⟨held, h⟩ := h
  exact ⟨held, { h with left := Nat.le_trans h.left le }⟩

/-- A way to read operands, which works while fewer tokens than a bound are left. -/
def ReadsOperands (cap : Nat) (out : Except (Located ReadError) Expr) (n : Nat)
    (operand : Nat → Reading Nat) : Prop :=
  ∀ k < n, ∀ frames t r, Due cap out k frames t r → ¬Omits r.current frames →
    (operand (power frames)).Ends r
      (fun row r' => ∃ held, Held cap out k frames.length frames t held row r' ∧
        r'.current.kind.bindingPower ≤ power frames)
      (Fails out t)

/-- A node is completed as the machine completes it, when the nodes below it are in the table. -/
theorem push_ends {label : Label} {children : List Nat} {e : Expr}
    {made : Except (Located ReadError) Operand} (ready : Ready k calls r) (even : t.Even)
    (grown : ∃ forest, r.table = t.addAll forest) (node : made = Operand.node cap e e.depth)
    (pushed : r.table.push cap ⟨label, children, span⟩ = made.map fun made => t.add made.expr)
    (same : (made >>= fun made => r.resume cap (.operator frames made)) = out) :
    (Reading.push cap label children span).Ends r
      (fun row r' => ∃ held, Held cap out k calls frames t held row r') (Fails out t) := by
  change Reading.Ends (get >>= _) r _ _
  apply Reading.ends_get
  subst node
  unfold Operand.node at pushed same
  split at pushed
  · rename_i deep
    rw [if_pos deep] at same
    rw [pushed]
    exact ⟨same.symm, grown⟩
  · rename_i room
    rw [if_neg room] at same
    have last : r.table.rows.size + 1 = (t.add e).rows.size := (Table.size_of_push pushed).symm
    have listed : Listed cap t ⟨e, e.depth⟩ r.table.rows.size :=
      ⟨even, last, rfl, Nat.not_lt.mp room⟩
    have ready' : Ready k calls { r with table := t.add e } :=
      ⟨ready.fresh, ready.nesting, ready.left⟩
    rw [pushed]
    exact ⟨_, ⟨ready', listed, rfl, same⟩⟩

/-- A node without subexpressions fits any table. -/
theorem push_leaf_ends {e : Expr} (leaf : e.Leaf) (room : 0 < cap)
    {fails : Located ReadError → Reader → Prop} :
    (Reading.push cap e.label [] e.span).Ends r
      (fun row r' => row + 1 = (r.table.add e).rows.size ∧ r' = { r with table := r.table.add e })
      fails := by
  have pushed : r.table.push cap ⟨e.label, [], e.span⟩ = .ok (r.table.add e) :=
    Table.push_leaf leaf room
  change Reading.Ends (get >>= _) r _ _
  apply Reading.ends_get
  rw [pushed]
  exact ⟨(Table.size_of_push pushed).symm, rfl⟩

theorem listed_leaf {e : Expr} (leaf : e.Leaf) (room : 0 < cap) (even : t.Even)
    (last : row + 1 = (t.add e).rows.size) : Listed cap t (.leaf e) row :=
  ⟨even, last, leaf.depth.symm, room⟩

theorem push_unary_ends {op : UnaryOp} (held' : Held cap out k calls (.pending (.unary op span) ::
      frames) t held row r) (gives : r.current.kind.bindingPower ≤ op.threshold) :
    (Reading.push cap (.unary op) [row] span).Ends r
      (fun row r' => ∃ held, Held cap out k calls frames t held row r') (Fails out t) := by
  have completed := held'.same
  rw [Reader.resume_pending gives] at completed
  refine push_ends (e := .unary op held.expr span) held'.toReady held'.even
    ⟨[held.expr], held'.table⟩ ?_ ?_ completed
  · simp only [Pending.complete, held'.depth]
    rfl
  · rw [held'.table, Table.push_unary held'.even held'.last]
    simp only [Pending.complete, held'.depth]

theorem push_pair_ends {label : Label} {build : Expr → Expr → Span → Expr} {first second : Nat}
    (builds : Builds label build) (ready : Ready k calls r) (listed : Listed cap t left first)
    (listed' : Listed cap (t.add left.expr) held second)
    (table : r.table = (t.add left.expr).add held.expr)
    (same : (Operand.pair cap build left held span >>=
      fun made => r.resume cap (.operator frames made)) = out) :
    (Reading.push cap label [first, second] span).Ends r
      (fun row r' => ∃ held, Held cap out k calls frames t held row r') (Fails out t) := by
  have node : Operand.pair cap build left held span =
      Operand.node cap (build left.expr held.expr span) (build left.expr held.expr span).depth := by
    rw [Operand.pair, listed.depth, listed'.depth, builds.depth]
  refine push_ends ready listed.even ⟨[left.expr, held.expr], table⟩ node ?_ same
  rw [table, Table.push_pair listed.even builds listed.last listed'.last, node, builds.depth]

section Operands

variable {label : Label} {build : Expr → Expr → Span → Expr} {p : Pending} {first : Nat}

/-- An operation with a left operand reads its right one and is complete. -/
theorem pair_ends (reads : ReadsOperands cap out n operand) (few : k < n)
    (builds : Builds label build)
    (completes : ∀ held, p.complete cap held = Operand.pair cap build left held span)
    (listed : Listed cap t left first)
    (due : Due cap out k (.pending p :: frames) (t.add left.expr) r)
    (other : ¬Omits r.current (.pending p :: frames)) :
    (operand p.threshold >>= fun right => Reading.push cap label [first, right] span).Ends r
      (Holds cap out k frames t) (Fails out t) := by
  apply ((reads k few _ _ r due other).relax fun e r' => Fails.add).bind
  rintro right r' ⟨held, held', gives⟩
  have completed := held'.same
  rw [Reader.resume_pending gives, completes] at completed
  exact push_pair_ends builds held'.toReady listed held'.toListed held'.table completed

theorem not_omits_of_ne (other : ∀ first span, p ≠ .bound first span) :
    ¬Omits token (.pending p :: frames) := by
  rintro ⟨_, first, span, rest, same⟩
  injection same with head
  exact other first span (Frame.pending.inj head)

theorem not_omits_unary {op : UnaryOp} :
    ¬Omits token (.pending (.unary op span) :: frames) := by
  rintro ⟨_, first, span, rest, same⟩
  cases same

theorem not_omits_enclosing {e : Enclosure} : ¬Omits token (.enclosing e :: frames) := by
  rintro ⟨_, first, span, rest, same⟩
  cases same

theorem bounds_ends (reads : ReadsOperands cap out n operand) (few : k < n) (room : 0 < cap)
    (listed : Listed cap t left first)
    (due : Due cap out k (.pending (.bound left span) :: frames) (t.add left.expr) r) :
    (Descent.bounds cap operand first span).Ends r (Holds cap out k frames t) (Fails out t) := by
  apply Reading.ends_get
  dsimp only
  by_cases closes : r.current.kind = .rightBracket
  · rw [if_pos closes]
    let last := Literal.number (Number.ofInt (-1))
    apply (push_leaf_ends (leaf_literal last ⟨r.current.span.offset, 0⟩) room).bind
    rintro row r' ⟨last, rfl⟩
    have completed := due.same
    rw [Reader.resume_omitted closes] at completed
    rw [due.table] at last ⊢
    exact push_pair_ends builds_slice ⟨due.fresh, due.nesting, due.left⟩ listed
      (listed_leaf (leaf_literal _ _) room due.even last) rfl completed
  · rw [if_neg closes]
    have other : ¬Omits r.current (.pending (.bound left span) :: frames) :=
      fun omits => closes omits.1
    exact pair_ends reads few builds_slice (fun _ => rfl) listed due other

end Operands

theorem expect_ends {e : Enclosure}
    (held' : Held cap out k calls (.enclosing e :: frames) t held row r)
    (gives : r.current.kind.bindingPower ≤ 0) :
    (Descent.expect e.closer : Reading Unit).Ends r
      (fun _ r' => Ready k calls r' ∧ r'.table = r.table ∧
        (e.close cap held >>= fun made => r'.resume cap (.operator frames made)) = out)
      (Fails out t) := by
  have unbound : ¬0 < r.current.kind.bindingPower := Nat.not_lt.mpr gives
  have settled (power : Nat) :
      settle cap power (.enclosing e :: frames) held = .ok (.enclosing e :: frames, held) :=
    settle_of_firm trivial
  apply Reading.ends_get
  dsimp only
  by_cases closes : r.current.kind = e.closer
  · have more : r.current.kind ≠ .eof := by rw [closes]; cases e <;> nofun
    have approached : approach cap r.current (.operator (.enclosing e :: frames) held) =
        .ok (.close e frames held) := by
      change approachOperator _ _ _ _ = _
      simp only [approachOperator, settled, if_neg unbound]
      exact if_pos closes
    rw [if_pos closes]
    apply ((Reading.advance_ends more held'.table approached held'.same).relax
      fun e r' => Fails.add).bind
    rintro _ r' ⟨rfl, moved, one, same⟩
    have most := held'.left
    refine ⟨moved.ready held'.toReady (by omega), moved.table, ?_⟩
    simpa only [take, bind_assoc, pure_bind] using same
  · rw [if_neg closes]
    have failed : out = .error ((ParseError.expected e.closer r.current.kind).atSpan
        r.current.span) := by
      rw [← held'.same]
      unfold Reader.resume
      by_cases ends : r.current.kind = .eof
      · rw [Reader.scan_of_eof ends]
        simp only [run, finish, settled]
        rfl
      · rw [Reader.scan_of_more ends]
        simp only [run, approach, approachOperator, settled, if_neg unbound]
        change (if _ then _ else _ : Except _ _) >>= _ = _
        rw [if_neg closes]
        rfl
    exact held'.fails failed

/-! ### The rules for a token -/

theorem leaf_ends {e : Expr} (leaf : e.Leaf) (room : 0 < cap) (ready : Ready k calls r)
    (even : t.Even) (table : r.table = t)
    (same : r.resume cap (.operator frames (.leaf e)) = out) :
    (Reading.push cap e.label [] e.span).Ends r
      (fun row r' => ∃ held, Held cap out k calls frames t held row r') (Fails out t) := by
  apply (push_leaf_ends leaf room).mono
  rintro row r' ⟨last, rfl⟩
  rw [table] at last ⊢
  exact ⟨_, ⟨⟨ready.fresh, ready.nesting, ready.left⟩, listed_leaf leaf room even last, rfl, same⟩⟩

/-- The token that was taken last stands before an operand of its own. -/
theorem due_of_taken {f : Frame} {t' : Table} (ready : Ready k (frames.length + 1) r)
    (previous : r.previous = some token.kind)
    (awaits : token.kind.isOperator = AfterOperator (f :: frames))
    (even : t'.Even) (table : r.table = t')
    (same : (.ok (.operand (f :: frames)) >>= r.resume cap) = out) :
    Due cap out k (f :: frames) t' r :=
  ⟨ready, by rw [previous]; exact awaits, even, table, same⟩

/-- The classes of tokens that neither start an operand nor close anything. -/
def strays : List TokenKind :=
  [.dot, .mulDiv, .power, .comparison, .and, .or, .stringCompare, .filter]

/-- A token that starts nothing is laid to the operator before it. -/
theorem takeStart_of_stray (stray : token.kind ∈ strays) :
    takeStart token frames =
      if AfterOperator frames then .error (ParseError.missingOperand.atSpan token.span)
      else .error ((ParseError.unexpectedToken token.kind token.text).atSpan token.span) := by
  unfold takeStart AfterOperator
  cases kind : token.kind <;> rw [kind] at stray <;> first
    | exact absurd stray (by decide)
    | cases frames with
      | nil => rfl
      | cons f rest => cases f <;> rfl

theorem stray_ends (stray : token.kind ∈ strays) (table : r.table = t)
    {preceding : Option TokenKind}
    (awaits : preceding.any TokenKind.isOperator = AfterOperator frames)
    (same : (takeStart token frames >>= r.resume cap) = out) :
    (if preceding.any TokenKind.isOperator then Descent.fail .missingOperand token.span
      else Descent.fail (.unexpectedToken token.kind token.text) token.span : Reading Nat).Ends r
      (Holds cap out k frames t) (Fails out t) := by
  rw [takeStart_of_stray stray] at same
  rw [awaits]
  split
  · rename_i waits
    rw [if_pos waits] at same
    exact fails_of_eq same.symm table
  · rename_i free
    rw [if_neg free] at same
    exact fails_of_eq same.symm table

/-- What a token starts is what the machine starts with it. -/
theorem leading_ends (reads : ReadsOperands cap out n operand) (few : k < n) (room : 0 < cap)
    (ready : Ready k (frames.length + 1) r) (previous : r.previous = some token.kind)
    (even : t.Even) (table : r.table = t) {preceding : Option TokenKind}
    (awaits : preceding.any TokenKind.isOperator = AfterOperator frames) (more : token.kind ≠ .eof)
    (same : (takeStart token frames >>= r.resume cap) = out) :
    (Descent.leading cap operand token preceding).Ends r (Holds cap out k frames t)
      (Fails out t) := by
  subst table
  have stray (among : token.kind ∈ strays) := stray_ends (k := k) among rfl awaits same
  have due {f : Frame} {t' : Table} (awaits : token.kind.isOperator = AfterOperator (f :: frames))
      (even : t'.Even) (started : takeStart token frames = .ok (.operand (f :: frames))) :
      Due cap out k (f :: frames) t' { r with table := t' } :=
    due_of_taken ⟨ready.fresh, ready.nesting, ready.left⟩ previous awaits even rfl (started ▸ same)
  unfold Descent.leading
  cases kind : token.kind <;> dsimp only
  case identifier =>
    simp only [takeStart, kind] at same
    exact leaf_ends (leaf_identifier _ _) room ready even rfl same
  case string =>
    simp only [takeStart, kind] at same
    exact leaf_ends (leaf_literal _ _) room ready even rfl same
  case number =>
    simp only [takeStart, kind] at same
    cases read : Number.ofLiteral? token.text.toList with
    | some number =>
      rw [read] at same
      exact leaf_ends (leaf_literal _ _) room ready even rfl same
    | none =>
      rw [read] at same
      exact fails_of_eq same.symm rfl
  case leftParen =>
    have opened : takeStart token frames = .ok (.operand (.enclosing .group :: frames)) := by
      simp only [takeStart, kind]
    have due : Due cap out k _ r.table r := due (by rw [kind]; rfl) even opened
    apply (reads k few _ _ r due not_omits_enclosing).bind
    rintro row r' ⟨held, held', gives⟩
    apply (expect_ends held' gives).bind
    rintro _ r'' ⟨ready'', table'', same''⟩
    exact Reading.ends_pure ⟨held, ready'', held'.toListed, table''.trans held'.table, same''⟩
  case not =>
    have opened : takeStart token frames =
        .ok (.operand (.pending (.unary .not token.span) :: frames)) := by
      simp only [takeStart, kind]
    have due : Due cap out k _ r.table r := due (by rw [kind]; rfl) even opened
    apply (reads k few _ _ r due not_omits_unary).bind
    rintro row r' ⟨held, held', gives⟩
    exact push_unary_ends held' gives
  case addSub =>
    have opened : takeStart token frames = .ok (.operand (.pending (.unary
        (if token.text = "-" then .minus else .plus) token.span) :: frames)) := by
      simp only [takeStart, kind]
    have threshold : (if token.text = "-" then UnaryOp.minus else .plus).threshold =
        TokenKind.addSub.bindingPower := by
      split <;> rfl
    have due : Due cap out k _ r.table r := due (by rw [kind]; rfl) even opened
    have read := reads k few _ _ r due not_omits_unary
    simp only [power, Pending.threshold, threshold] at read
    apply read.bind
    rintro row r' ⟨held, held', gives⟩
    exact push_unary_ends held' (threshold ▸ gives)
  case slice =>
    have opened : takeStart token frames = .ok (.operand (.pending
        (.bound (.number (Number.ofNat 0) token.span) token.span) :: frames)) := by
      simp only [takeStart, kind]
    apply (push_leaf_ends (leaf_literal (.number (Number.ofNat 0)) token.span) room).bind
    rintro row r' ⟨last, rfl⟩
    exact bounds_ends reads few room (listed_leaf (leaf_literal _ _) room even last)
      (due (by rw [kind]; rfl) even.add opened)
  case eof => exact absurd kind more
  case rightParen | leftBracket | rightBracket =>
    simp only [takeStart, kind] at same
    exact fails_of_eq same.symm rfl
  all_goals
    rw [kind] at stray
    exact stray (by decide)

/-- What a token makes of the operand before it is what the machine makes of it. -/
theorem following_ends (reads : ReadsOperands cap out n operand) (few : k < n) (room : 0 < cap)
    {first : Nat} (listed : Listed cap t left first) (ready : Ready k (frames.length + 1) r)
    (previous : r.previous = some token.kind) (table : r.table = t.add left.expr)
    (weighted : Weighted token.kind token.text) (binds : 0 < token.kind.bindingPower)
    (same : (takeExtend token frames left >>= r.resume cap) = out) :
    (Descent.following cap operand token first).Ends r (Holds cap out k frames t)
      (Fails out t) := by
  have due {f : Frame} (awaits : token.kind.isOperator = AfterOperator (f :: frames))
      (extended : takeExtend token frames left = .ok (.operand (f :: frames))) :
      Due cap out k (f :: frames) (t.add left.expr) r :=
    due_of_taken ready previous awaits listed.even.add table (extended ▸ same)
  have failed {e : ParseError} (refused : takeExtend token frames left =
      .error (e.atSpan token.span)) :
      (Descent.fail e token.span : Reading Nat).Ends r (Holds cap out k frames t)
        (Fails out t) := by
    rw [refused] at same
    exact ⟨same.symm, [left.expr], table⟩
  unfold Descent.following
  cases kind : token.kind <;> dsimp only
  case addSub | mulDiv | comparison | and | or | stringCompare =>
    cases found : BinaryOp.ofSymbol? token.text with
    | none =>
      apply failed
      simp only [takeExtend, kind, found]
    | some op =>
      have extended : takeExtend token frames left =
          .ok (.operand (.pending (.right op left token.span) :: frames)) := by
        simp only [takeExtend, kind, found]
      have threshold : op.threshold = token.kind.bindingPower :=
        weighted.2 (by rw [kind]; trivial) (by rw [kind]; nofun) op found
      rw [kind] at threshold
      have read := pair_ends reads few (builds_binary op) (fun _ => rfl) listed
        (due (by rw [kind]; rfl) extended) (not_omits_of_ne nofun)
      rwa [Pending.threshold, threshold] at read
  case power =>
    have found := weighted.1 kind
    have extended : takeExtend token frames left =
        .ok (.operand (.pending (.right (.arithmetic .power) left token.span) :: frames)) := by
      simp only [takeExtend, kind, found]
    exact pair_ends reads few (builds_binary _) (fun _ => rfl) listed
      (due (by rw [kind]; rfl) extended) (not_omits_of_ne nofun)
  case dot =>
    have extended : takeExtend token frames left =
        .ok (.operand (.pending (.member left token.span) :: frames)) := by
      simp only [takeExtend, kind]
    exact pair_ends reads few builds_field (fun _ => rfl) listed (due (by rw [kind]; rfl) extended)
      (not_omits_of_ne nofun)
  case filter =>
    have extended : takeExtend token frames left =
        .ok (.operand (.pending (.condition left token.span) :: frames)) := by
      simp only [takeExtend, kind]
    exact pair_ends reads few builds_filter (fun _ => rfl) listed
      (due (by rw [kind]; rfl) extended) (not_omits_of_ne nofun)
  case slice =>
    have extended : takeExtend token frames left =
        .ok (.operand (.pending (.bound left token.span) :: frames)) := by
      simp only [takeExtend, kind]
    exact bounds_ends reads few room listed (due (by rw [kind]; rfl) extended)
  case leftBracket =>
    have extended : takeExtend token frames left =
        .ok (.operand (.enclosing (.brackets left token.span) :: frames)) := by
      simp only [takeExtend, kind]
    have due := due (by rw [kind]; rfl) extended
    apply ((reads k few _ _ r due not_omits_enclosing).relax fun e r' => Fails.add).bind
    rintro row r' ⟨held, held', gives⟩
    apply ((expect_ends held' gives).relax fun e r' => Fails.add).bind
    rintro _ r'' ⟨ready'', table'', same''⟩
    exact push_pair_ends builds_index ready'' listed held'.toListed (table''.trans held'.table)
      same''
  case leftParen =>
    apply failed
    simp only [takeExtend, kind]
  all_goals
    rw [kind] at binds
    exact absurd binds (by decide)

/-- An operand is continued as the machine continues it. -/
theorem continued_ends (reads : ReadsOperands cap out n operand) (room : 0 < cap) {steps : Nat}
    (enough : k < steps) (few : k < n) (holds : Holds cap out k frames t row r) :
    (Descent.continued cap operand (power frames) steps row).Ends r
      (fun row r' => Holds cap out k frames t row r' ∧
        r'.current.kind.bindingPower ≤ power frames)
      (Fails out t) := by
  induction steps generalizing k row r with
  | zero => exact absurd enough (Nat.not_lt_zero k)
  | succ steps ih =>
    obtain ⟨held, held'⟩ := holds
    apply Reading.ends_get
    split
    · rename_i binds
      have more : r.current.kind ≠ .eof := by
        intro ends
        rw [ends] at binds
        exact absurd binds (Nat.not_lt_zero _)
      have bound : 0 < r.current.kind.bindingPower := Nat.zero_lt_of_lt binds
      have approached : approach cap r.current (.operator frames held) =
          .ok (.extend frames held) := by
        change approachOperator _ _ _ _ = _
        simp only [approachOperator, settle_of_firm (firm_of_power_lt binds)]
        exact if_pos bound
      apply ((Reading.advance_ends more held'.table approached held'.same).relax
        fun e r' => Fails.add).bind
      rintro _ r' ⟨rfl, moved, one, same⟩
      have most := held'.left
      obtain ⟨k, rfl⟩ : ∃ m, k = m + 1 := Nat.exists_eq_add_one.mpr (by omega)
      apply (following_ends reads (Nat.lt_of_succ_lt few) room held'.toListed
        (moved.ready held'.toReady (by omega)) moved.previous (moved.table.trans held'.table)
        (held'.fresh.weighted more) bound same).bind
      intro row r'' holds
      apply (ih (Nat.lt_of_succ_lt_succ enough) (Nat.lt_of_succ_lt few) holds).mono
      rintro row r'' ⟨holds, gives⟩
      exact ⟨holds.mono (Nat.le_succ k), gives⟩
    · rename_i gives
      exact Reading.ends_pure ⟨⟨held, held'⟩, Nat.not_lt.mp gives⟩

/-- At the end of the source no operand can be read. -/
theorem resume_of_eof (ends : r.current.kind = .eof) :
    r.resume cap (.operand frames) =
      if cap ≤ frames.length then .error (ParseError.tooComplex.atSpan r.current.span)
      else .error (ParseError.incomplete.atSpan r.current.span) := by
  unfold Reader.resume
  rw [Reader.scan_of_eof ends]
  rfl

/-- Operands that are nested too deeply are refused at their first tokens. -/
theorem resume_of_full (other : ¬Omits r.current frames) (full : cap ≤ frames.length) :
    r.resume cap (.operand frames) = .error (ParseError.tooComplex.atSpan r.current.span) := by
  by_cases ends : r.current.kind = .eof
  · rw [resume_of_eof ends, if_pos full]
  · unfold Reader.resume
    rw [Reader.scan_of_more ends, run, approach_of_not_omits other, if_pos full]
    rfl

/-- The descent reads operands as the machine does. -/
theorem expression_ends (n : Nat) : ReadsOperands cap out n (Descent.expression cap n) := by
  induction n with
  | zero => exact fun k few => absurd few (Nat.not_lt_zero k)
  | succ n ih =>
    intro k few frames t r due other
    rw [Descent.expression]
    apply Reading.ends_enter
    apply Reading.ends_get
    have nesting := due.nesting
    have same := due.same
    dsimp only
    rw [nesting]
    split
    · rename_i full
      rw [resume_of_full other (Nat.le_of_lt_succ full)] at same
      exact fails_of_eq same.symm due.table
    · rename_i shallow
      let inner : Reader := { r with nesting := frames.length + 1 }
      have ready : Ready k (frames.length + 1) inner := ⟨due.fresh, rfl, due.left⟩
      have room : 0 < cap := by omega
      by_cases ends : r.current.kind = .eof
      · rw [resume_of_eof ends, if_neg (by omega)] at same
        apply (Reading.advance_of_eof (r := inner) due.fresh ends).bind
        rintro _ r' ⟨rfl, table⟩
        rw [Descent.leading, ends]
        exact fails_of_eq same.symm (table.trans due.table)
      · have approached : approach cap r.current (.operand frames) = .ok (.start frames) := by
          rw [approach_of_not_omits other, if_neg (by omega)]
        apply (Reading.advance_ends (r := inner) ends due.table approached same).bind
        rintro _ r' ⟨rfl, moved, one, taken⟩
        have most := ready.left
        obtain ⟨k, rfl⟩ : ∃ m, k = m + 1 := Nat.exists_eq_add_one.mpr (by omega)
        have few' : k < n := Nat.lt_of_succ_lt_succ few
        apply (leading_ends ih few' room (moved.ready ready (by omega)) moved.previous due.even
          (moved.table.trans due.table) due.awaits ends taken).bind
        intro first r'' holds
        apply (continued_ends ih room (Nat.lt_succ_of_lt few') few' holds).mono
        rintro row after ⟨⟨held, held'⟩, gives⟩
        have ready' : Ready (k + 1) frames.length { after with nesting := after.nesting - 1 } := by
          refine ⟨held'.fresh, ?_, Nat.le_succ_of_le held'.left⟩
          have inside := held'.nesting
          dsimp only
          omega
        exact ⟨held, ⟨ready', held'.toListed, held'.table, held'.same⟩, gives⟩

/-- Reading a source to its end gives what the machine gives. -/
theorem whole_ends (few : k < n) (due : Due cap out k [] .empty r) :
    (Descent.whole cap n : Reading Nat).Ends r
      (fun root r' => ∃ held, out = .ok held.expr ∧ Listed cap .empty held root ∧
        r'.table = Table.empty.add held.expr)
      (Fails out .empty) := by
  apply (expression_ends n k few [] .empty r due fun omits => nomatch omits.2).bind
  rintro root r' ⟨held, held', gives⟩
  have same := held'.same
  have settled (power : Nat) : settle cap power [] held = .ok ([], held) := rfl
  apply Reading.ends_get
  dsimp only
  unfold Reader.resume at same
  split
  · rename_i ends
    rw [Reader.scan_of_eof ends] at same
    exact Reading.ends_pure ⟨held, same.symm, held'.toListed, held'.table⟩
  · rename_i more
    have unbound : ¬0 < r'.current.kind.bindingPower := Nat.not_lt.mpr gives
    rw [Reader.scan_of_more more] at same
    simp only [run, approach, approachOperator, settled, if_neg unbound] at same
    exact held'.fails same.symm

end JsonQuery.Parse
