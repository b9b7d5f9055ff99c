import JsonQuery.Proofs.Parse.Signs

/-! How slices are read. A bound is a chain of operators that bind more tightly than the colon, with
a sign before it or without; either bound can be left out, and the first place or the last place
then stands for it. A slice is read as an operand, so it can stand in chains. -/
namespace JsonQuery.Parse

variable {cap limit : Nat} {frames : List Frame} {u v w : List Token}
  {x y a b : Expr} {links : List (Joiner × Expr)} {source source' first last : String}

/-- The frames give way to nothing that binds more tightly than a colon. -/
def Bounded (frames : List Frame) : Prop :=
  ∀ power, TokenKind.slice.bindingPower < power → Firm power frames

theorem bounded_enclosing (e : Enclosure) (frames : List Frame) :
    Bounded (.enclosing e :: frames) :=
  fun _ _ => trivial

theorem bounded_bound (first : Operand) (span : Span) (frames : List Frame) :
    Bounded (.pending (.bound first span) :: frames) :=
  fun _ more => more

def ReadsAsBound (w : List Token) (x : Expr) : Prop :=
  ∀ (cap : Nat) (frames : List Frame), Bounded frames →
    Ensures (SettlesTo cap TokenKind.slice.bindingPower frames x) IsTooComplex
      (steps cap (.operand frames) w)

/-- A chain settles to its tree where the chain binds into what is open, and what follows does not
bind into the chain. -/
theorem settlesTo_of_linked (h : Linked w x links)
    (firm : ∀ op ∈ links.map Prod.fst, Firm op.kind.bindingPower frames)
    (limited : ∀ op ∈ links.map Prod.fst, limit ≤ op.threshold) :
    Ensures (SettlesTo cap limit frames (tree x links)) IsTooComplex
      (steps cap (.operand frames) w) := by
  apply (reads_of_linked h firm).mono
  rintro _ ⟨rest, held, rfl, settles⟩
  refine ⟨rest, held, rfl, fun power le post settled => ?_⟩
  exact settles power post (fun op member => Nat.le_trans le (limited op member)) settled

namespace Joiner

/-- Operators of a higher level bind more tightly, and into each other. -/
theorem threshold_lt {op other : Joiner} (tighter : op.level < other.level) :
    op.threshold < other.kind.bindingPower := by
  rw [threshold_eq, bindingPower_kind]
  exact levelThreshold_lt _ (level_le other) _ tighter

theorem bindingPower_le {op other : Joiner} (tighter : op.level < other.level)
    (loose : op.level < 8) (some : 0 < op.level) : op.kind.bindingPower ≤ other.threshold := by
  rw [threshold_eq, bindingPower_kind]
  exact levelPower_le _ (level_le other) _ (Nat.le_of_lt tighter) loose some

end Joiner

theorem readsAsBound_of_linked (h : Linked w x links)
    (tighter : ∀ op ∈ links.map Prod.fst, Joiner.bound.level < op.level) :
    ReadsAsBound w (tree x links) := by
  intro cap frames bounded
  apply settlesTo_of_linked h
  · exact fun op member => bounded _ (Joiner.threshold_lt (tighter op member))
  · exact fun op member => Joiner.bindingPower_le (tighter op member) (by decide) (by decide)

def Joiner.sum : Joiner := .binary (.arithmetic .add)

/-- A sign takes products with it. -/
theorem readsAsBound_of_signed (sign : Sign) (h : Linked w x links)
    (tighter : ∀ op ∈ links.map Prod.fst, Joiner.sum.level < op.level) :
    ReadsAsBound (sign.token :: w) (sign.apply (tree x links)) := by
  intro cap frames _
  rw [steps_cons]
  apply (step_signToken sign).bind
  rintro _ rfl
  have inside : Ensures (SettlesTo cap TokenKind.addSub.bindingPower
      (.pending sign.pending :: frames) (tree x links)) IsTooComplex
      (steps cap (.operand (.pending sign.pending :: frames)) w) := by
    apply settlesTo_of_linked h
    · intro op member
      rw [Firm, sign.threshold_pending]
      exact Joiner.threshold_lt (tighter op member)
    · exact fun op member => Joiner.bindingPower_le (tighter op member) (by decide) (by decide)
  apply inside.mono
  intro s settles
  exact (settles.sign (Nat.le_of_eq sign.threshold_pending.symm)).mono (by decide)

/-- The tokens of a bound that can be left out, and what then stands for it. -/
inductive Bound (omitted : Float) : List Token → Expr → Prop where
  | omitted : Bound omitted [] (.literal (.number omitted) ⟨0, 0⟩)
  | spelled {w : List Token} {x : Expr} : ReadsAsBound w x → Bound omitted w x

def colonToken : Token := ⟨.slice, ":", ⟨0, 0⟩⟩

def closingBracket : Token := ⟨.rightBracket, "]", ⟨0, 0⟩⟩

/-- The colon takes what is before it within the brackets. -/
theorem Bound.steps_colon (first : Bound (Number.ofNat 0) v a) (e : Enclosure) :
    Ensures (fun s => ∃ depth,
        s = .operand (.pending (.bound ⟨a, depth⟩ ⟨0, 0⟩) :: .enclosing e :: frames))
      IsTooComplex (steps cap (.operand (.enclosing e :: frames)) (v ++ [colonToken])) := by
  cases first with
  | omitted =>
    rw [List.nil_append, steps_singleton]
    apply step_of_start
    · simp [colonToken]
    · exact ⟨1, rfl⟩
  | spelled reads =>
    rw [steps_append]
    apply (reads cap _ (bounded_enclosing e frames)).bind
    rintro _ ⟨rest, held, rfl, settles⟩
    rw [steps_singleton, step_of_binds (by decide)]
    have settled : Ensures (fun r => ∃ depth, r = (.enclosing e :: frames, ⟨a, depth⟩)) IsTooComplex
        (settle cap colonToken.kind.bindingPower rest held) :=
      settles _ (Nat.le_refl _) _ fun depth => ⟨depth, rfl⟩
    apply settled.bind
    rintro _ ⟨depth, rfl⟩
    exact ⟨depth, rfl⟩

/-- Closing the brackets around a slice makes the node. -/
theorem step_of_slice {depth : Nat} {action : Except (Located ReadError) Action}
    (approached : Ensures (fun action => ∃ rest r,
      action = .close (.brackets ⟨x, depth⟩ ⟨0, 0⟩) rest r ∧ rest = frames ∧
        r.expr = .slice a b ⟨0, 0⟩) IsTooComplex action) :
    Ensures (fun s => ∃ depth,
        s = .operator frames ⟨.index x (.slice a b ⟨0, 0⟩) ⟨0, 0⟩, depth⟩) IsTooComplex
      (action >>= take cap closingBracket) := by
  apply approached.bind
  rintro _ ⟨_, r, rfl, rfl, inside⟩
  apply (take_of_closes _ _ r).mono
  rintro _ ⟨made, closed, rfl⟩
  have node : Ensures _ IsTooComplex
      ((Enclosure.brackets ⟨x, depth⟩ ⟨0, 0⟩).close cap r) := node_ensures _ _
  rw [closed] at node
  rw [inside] at node
  exact ⟨_, congrArg (State.operator _) node⟩

/-- Completing a slice exposes the brackets. -/
theorem settle_bound {e : Enclosure} {depth depth' : Nat} :
    Ensures (Exposes e fun rest r => rest = frames ∧ r.expr = .slice a b ⟨0, 0⟩) IsTooComplex
      (settle cap 0 (.pending (.bound ⟨a, depth⟩ ⟨0, 0⟩) :: .enclosing e :: frames)
        ⟨b, depth'⟩) := by
  rw [settle_of_le (Nat.zero_le _)]
  apply (node_ensures _ _).bind
  rintro _ rfl
  exact ⟨frames, rfl, rfl, rfl⟩

/-- A closing bracket completes the slice and closes the brackets around it. -/
theorem Bound.steps_bracket (last : Bound (Number.ofInt (-1)) w b) (depth depth' : Nat) :
    Ensures (fun s => ∃ depth,
        s = .operator frames ⟨.index x (.slice a b ⟨0, 0⟩) ⟨0, 0⟩, depth⟩) IsTooComplex
      (steps cap (.operand (.pending (.bound ⟨a, depth⟩ ⟨0, 0⟩) ::
        .enclosing (.brackets ⟨x, depth'⟩ ⟨0, 0⟩) :: frames)) (w ++ [closingBracket])) := by
  cases last with
  | omitted =>
    rw [List.nil_append, steps_singleton]
    apply step_of_slice
    rw [approach_of_omits rfl]
    apply (node_ensures _ _).bind
    rintro _ rfl
    exact approachOperator_of_closes rfl ⟨frames, rfl, rfl, rfl⟩
  | spelled reads =>
    rw [steps_append]
    apply (reads cap _ (bounded_bound _ _ _)).bind
    rintro _ ⟨rest, held, rfl, settles⟩
    rw [steps_singleton]
    apply step_of_slice
    apply approachOperator_of_closes rfl
    exact settles 0 (Nat.zero_le _) _ fun depth => settle_bound

theorem readsAs_slice (object : ReadsAs u x) (first : Bound (Number.ofNat 0) v a)
    (last : Bound (Number.ofInt (-1)) w b) :
    ReadsAs (u ++ ⟨.leftBracket, "[", ⟨0, 0⟩⟩ :: (v ++ colonToken :: (w ++ [closingBracket])))
      (.index x (.slice a b ⟨0, 0⟩) ⟨0, 0⟩) := by
  intro cap frames
  rw [steps_append]
  apply (object cap frames).bind
  rintro _ ⟨depth, rfl⟩
  rw [steps_cons, step_of_binds (by decide), settle_of_firm (firm_leftBracket frames)]
  change Ensures _ _ (steps cap (.operand (.enclosing (.brackets ⟨x, depth⟩ ⟨0, 0⟩) :: frames)) _)
  rw [List.append_cons, steps_append]
  apply (first.steps_colon _).bind
  rintro _ ⟨depth', rfl⟩
  exact last.steps_bracket depth' depth

/-- The texts of bounds: nothing, for which a number stands, or a chain of operators that bind more
tightly than the colon. A sign takes in the operators that bind more tightly than a sum. -/
inductive BoundText (omitted : Float) : String → Expr → Prop where
  | omitted : BoundText omitted "" (.literal (.number omitted) ⟨0, 0⟩)
  | chain {source : String} {x : Expr} {links : List (Joiner × Expr)} : Chain source x links →
      (∀ op ∈ links.map Prod.fst, Joiner.bound.level < op.level) →
      BoundText omitted source (tree x links)
  | signed {source : String} {x : Expr} {links : List (Joiner × Expr)} (sign : Sign) :
      Chain source x links → (∀ op ∈ links.map Prod.fst, Joiner.sum.level < op.level) →
      BoundText omitted (sign.op.symbol ++ source) (sign.apply (tree x links))

def sliced (object first last : String) : String := object ++ "[" ++ first ++ ":" ++ last ++ "]"

theorem Sign.scans (sign : Sign) {cs : List Char} {ts : List Token} (rest : Scans cs ts []) :
    Scans (sign.op.symbol.toList ++ cs) (sign.token :: ts) [] := by
  cases sign <;> exact .mark rfl (fun _ => rfl) rest

theorem BoundText.bound {omitted : Float} (h : BoundText omitted source x) :
    ∃ ts, Scans source.toList ts [] ∧ Bound omitted ts x := by
  cases h with
  | omitted => exact ⟨[], .done [], .omitted⟩
  | chain chain tighter =>
    obtain ⟨ts, scanned, linked⟩ := chain.linked
    exact ⟨ts, scanned, .spelled (readsAsBound_of_linked linked tighter)⟩
  | signed sign chain tighter =>
    obtain ⟨ts, scanned, linked⟩ := chain.linked
    refine ⟨sign.token :: ts, ?_, .spelled (readsAsBound_of_signed sign linked tighter)⟩
    rw [String.toList_append]
    exact sign.scans scanned

def TextReadsAs (source : String) (x : Expr) : Prop :=
  ∃ ts, Scans source.toList ts [] ∧ ReadsAs ts x

/-- A slice is read as an index by two bounds. An omitted first bound is the first place, and an
omitted last bound the last one. -/
theorem TextReadsAs.slice (object : TextReadsAs source x)
    (start : BoundText (Number.ofNat 0) first a) (stop : BoundText (Number.ofInt (-1)) last b) :
    TextReadsAs (sliced source first last) (.index x (.slice a b ⟨0, 0⟩) ⟨0, 0⟩) := by
  obtain ⟨us, scanned, reads⟩ := object
  obtain ⟨vs, scanned', bound⟩ := start.bound
  obtain ⟨ws, scanned'', bound'⟩ := stop.bound
  have delimits (c : Char) (mark : c ∈ ['[', ':', ']']) (rest : List Char) :
      Delimits (c :: rest) := by
    simp only [List.mem_cons, List.not_mem_nil, or_false] at mark
    rcases mark with rfl | rfl | rfl <;> exact ⟨rfl, rfl, by decide⟩
  have close : Scans [']'] [closingBracket] [] := .mark rfl (fun _ => rfl) (.done [])
  have colon : Scans (':' :: (last.toList ++ [']'])) (colonToken :: (ws ++ [closingBracket])) [] :=
    .mark rfl (fun _ => rfl) (scanned''.join (delimits ']' (by simp) _) close)
  have bracket : Scans ('[' :: (first.toList ++ ':' :: (last.toList ++ [']'])))
      (⟨.leftBracket, "[", ⟨0, 0⟩⟩ :: (vs ++ colonToken :: (ws ++ [closingBracket]))) [] :=
    .mark rfl (fun _ => rfl) (scanned'.join (delimits ':' (by simp) _) colon)
  refine ⟨_, ?_, readsAs_slice reads bound bound'⟩
  simpa [sliced] using scanned.join (delimits '[' (by simp) _) bracket

/-- An operand by itself is accepted as its tree. -/
theorem TextReadsAs.parse (h : TextReadsAs source x)
    (room : (Scan.of source).tokens.length < cap) :
    ∃ e, Expr.parse source cap = .ok e ∧ e.plain = x := by
  obtain ⟨ts, scanned, reads⟩ := h
  have linked : Linked ts x [] := .operand reads
  refine accepts_of_run scanned (fun eof => ?_) room
  rw [← tree_nil x]
  exact run_of_linked linked

def joined (op : BinaryOp) (left right : String) : String :=
  left ++ " " ++ op.symbol ++ " " ++ right

theorem tree_singleton (op : Joiner) : tree x [(op, y)] = op.build x y := by
  have place : Joiner.root [op] = 0 := by
    unfold Joiner.root
    split
    · rename_i member
      rw [List.mem_singleton.mp member]
      exact List.idxOf_cons_self
    · split
      · rfl
      · simp [Joiner.loosest]
  have split : tree x ([] ++ (op, y) :: []) = op.build (tree x []) (tree y []) := tree_append place
  rwa [tree_nil, tree_nil] at split

/-- Two operands with an operator between them are accepted as its node. -/
theorem TextReadsAs.parse_joined {op : BinaryOp} (left : TextReadsAs source x)
    (right : TextReadsAs source' y)
    (room : (Scan.of (joined op source source')).tokens.length < cap) :
    ∃ e, Expr.parse (joined op source source') cap = .ok e ∧
      e.plain = .binary op x y ⟨0, 0⟩ := by
  obtain ⟨us, scanned, reads⟩ := left
  obtain ⟨vs, scanned', reads'⟩ := right
  have blank : ∀ c ∈ [' '], Text.isBlank c = true := by simp; rfl
  have stop (rest : List Char) : Delimits (' ' :: rest) := delimits_of_blank rfl rest
  have tail := (Joiner.binary op).scans.join (stop source'.toList) (scanned'.skip blank)
  have whole : Scans (joined op source source').toList
      (us ++ Joiner.token (.binary op) :: vs) [] := by
    simpa [joined, Joiner.symbol] using scanned.join (stop _) (tail.skip blank)
  have linked : Linked (us ++ Joiner.token (.binary op) :: vs) x [(.binary op, y)] :=
    .link reads (.operand reads')
  have node : tree x [(.binary op, y)] = .binary op x y ⟨0, 0⟩ := tree_singleton (.binary op)
  refine accepts_of_run whole (fun eof => ?_) room
  rw [← node]
  exact run_of_linked linked

end JsonQuery.Parse
