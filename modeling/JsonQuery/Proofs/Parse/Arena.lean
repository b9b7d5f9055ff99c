import JsonQuery.Proofs.Parse.Descent

/-! The arena of a compiled source. Reading by descent gives the listing of the tree that the stack
machine builds, so what holds of listings holds of every arena. -/
namespace JsonQuery.Arena

variable {source : String} {cap : Nat} {arena : Arena} {e : Expr}

/-- The reader begins with the whole source ahead of it. -/
theorem scan_of_start {r : Parse.Reader} (started : Parse.Reader.start source = .ok r) :
    r.scan = Scan.of source ∧ r.Fresh ∧ r.previous = none ∧ r.table = .empty ∧ r.nesting = 0 := by
  unfold Parse.Reader.start at started
  cases first : (Cursor.start source).next with
  | mk outcome cursor =>
    rw [first] at started
    cases outcome with
    | error e => cases started
    | ok token =>
      cases started
      exact ⟨Parse.Reader.scan_of_next first, ⟨_, first⟩, rfl, rfl, rfl⟩

theorem parse_of_start_error {e : Located LexError}
    (failed : Parse.Reader.start source = .error e) :
    Expr.parse source cap = .error (e.map .lexical) := by
  unfold Parse.Reader.start at failed
  cases first : (Cursor.start source).next with
  | mk outcome cursor =>
    rw [first] at failed
    cases outcome with
    | error e' =>
      cases failed
      rw [Expr.parse, Parse.ofScan, Scan.of, Scan.ofCursor_of_error first]
      rfl
    | ok token => cases failed

/-- With a budget above the number of tokens the descent fails as reading a tree does, and otherwise
lists the tree. -/
theorem whole_cases {r : Parse.Reader} {budget : Nat}
    (started : Parse.Reader.start source = .ok r)
    (enough : (Scan.of source).tokens.length < budget) :
    (∃ e r', Expr.parse source cap = .ok e ∧ e.depth ≤ cap ∧
      r'.table = Parse.Table.empty.add e ∧
      (Parse.Descent.whole cap budget : Parse.Reading Nat).run.run r = (.ok (e.size - 1), r')) ∨
    ∃ e forest r', Expr.parse source cap = .error e ∧
      r'.table = Parse.Table.empty.addAll forest ∧
      (Parse.Descent.whole cap budget : Parse.Reading Nat).run.run r =
        (.error (.failed e), r') := by
  obtain ⟨scanned, fresh, previous, table, nesting⟩ := scan_of_start started
  have few : r.left ≤ (Scan.of source).tokens.length :=
    Nat.le_of_eq (congrArg (fun scan => scan.tokens.length) scanned)
  have same : r.resume cap (.operand []) = Expr.parse source cap := by
    rw [Parse.Reader.resume, scanned]
    rfl
  have awaits : r.previous.any TokenKind.isOperator = Parse.AfterOperator [] := by
    rw [previous]
    rfl
  have due : Parse.Due cap (Expr.parse source cap) _ [] .empty r :=
    ⟨⟨fresh, nesting, few⟩, awaits, Parse.Table.even_empty, table, same⟩
  have ends := Parse.whole_ends enough due
  unfold Parse.Reading.Ends at ends
  cases ran : (Parse.Descent.whole cap budget : Parse.Reading Nat).run.run r with
  | mk outcome r' =>
    rw [ran] at ends
    cases outcome with
    | ok root =>
      obtain ⟨held, parsed, listed, table⟩ := ends
      have shallow : held.expr.depth ≤ cap := listed.depth ▸ listed.capped
      have last : root = held.expr.size - 1 := by
        have row := listed.last
        rw [Parse.Table.size_rows_add] at row
        exact Nat.eq_sub_of_add_eq (by simpa [Parse.Table.empty] using row)
      exact .inl ⟨held.expr, r', parsed, shallow, table, by rw [last]⟩
    | error stop =>
      cases stop with
      | failed e =>
        obtain ⟨parsed, forest, table⟩ := ends
        exact .inr ⟨e, forest, r', parsed, table, rfl⟩
      | exhausted => exact ends.elim

/-- No source has more tokens than characters. -/
theorem length_tokens_lt (source : String) :
    (Scan.of source).tokens.length < source.length + 1 := by
  rw [← String.length_toList]
  exact Nat.lt_succ_of_le (Scan.length_tokens_le (Cursor.start source))

/-- Reading into a table fails as reading a tree does, and otherwise lists the tree. -/
theorem read_cases (source : String) (cap : Nat) :
    (∃ e, Expr.parse source cap = .ok e ∧ e.depth ≤ cap ∧
      read source cap = (.ok ⟨e.rows.toArray, e.size - 1⟩, Parse.Table.empty.add e)) ∨
    ∃ e forest, Expr.parse source cap = .error e ∧
      read source cap = (.error (.failed e), Parse.Table.empty.addAll forest) := by
  unfold read
  cases started : Parse.Reader.start source with
  | error e => exact .inr ⟨e.map .lexical, [], parse_of_start_error started, rfl⟩
  | ok r =>
    dsimp only
    rcases whole_cases started (length_tokens_lt source) with
      ⟨e, r', parsed, shallow, table, ran⟩ | ⟨e, forest, r', parsed, table, ran⟩
    · refine .inl ⟨e, parsed, shallow, ?_⟩
      rw [ran]
      simp [table, Parse.Table.add, Parse.Table.empty, Expr.rows]
    · refine .inr ⟨e, forest, parsed, ?_⟩
      rw [ran]
      dsimp only
      rw [table]

/-- Compiling and reading a tree are the same, up to the form of the result. -/
theorem parse_eq (source : String) (cap : Nat) :
    parse source cap = match Expr.parse source cap with
      | .ok e => .ok ⟨e.rows.toArray, e.size - 1⟩
      | .error e => .error (.failed e) := by
  unfold parse
  rcases read_cases source cap with ⟨e, parsed, -, found⟩ | ⟨e, forest, parsed, found⟩ <;>
    rw [parsed, found]

theorem exists_parse_eq_ok_iff :
    (∃ arena, parse source cap = .ok arena) ↔ ∃ e, Expr.parse source cap = .ok e := by
  rw [parse_eq]
  cases Expr.parse source cap <;> simp

theorem parse_eq_failed_iff {failure : Located ReadError} :
    parse source cap = .error (.failed failure) ↔ Expr.parse source cap = .error failure := by
  rw [parse_eq]
  cases Expr.parse source cap <;> simp

/-- An arena is the listing of an expression that is not deeper than a cap. -/
structure Lists (arena : Arena) (cap : Nat) (e : Expr) : Prop where
  /-- The nodes are in post-order. -/
  rows : arena.rows.toList = e.rows
  /-- The root comes last. -/
  root : arena.root + 1 = arena.rows.size
  /-- The way down from the root meets the whole expression, and is not longer than the cap. -/
  tree : Row.tree? arena.rows cap arena.root = some e
  depth : e.depth ≤ cap
  /-- References lead to earlier rows. -/
  children : ∀ row (r : Row), arena.rows[row]? = some r → ∀ child ∈ r.children, child < row
  /-- Each row but the root is referred to once. -/
  parents : (arena.rows.toList.flatMap Row.children).Perm (List.range arena.root)
  /-- The nodes below a row come right before it, those of the left subexpression first. -/
  subtrees : ∀ row < arena.rows.size, ∃ sub,
    Row.tree? arena.rows cap row = some sub ∧ Stands 0 arena.rows.toList row sub

theorem lists_rows (shallow : e.depth ≤ cap) : Lists ⟨e.rows.toArray, e.size - 1⟩ cap e := by
  have one : 0 < e.size := e.size_pos
  have count : e.rows.length = e.size := e.length_rowsFrom 0
  have stands : Stands 0 e.rows.toArray.toList (e.size - 1) e :=
    stands_self (by rw [Nat.sub_add_cancel one, Nat.zero_add])
  have every (row : Nat) (inside : row < e.rows.toArray.size) :
      ∃ sub, Stands 0 e.rows.toArray.toList row sub ∧ sub.depth ≤ cap := by
    rw [List.size_toArray, count] at inside
    obtain ⟨sub, stands, depth⟩ := exists_stands e 0 (Nat.zero_le row) (by omega)
    exact ⟨sub, stands, Nat.le_trans (Expr.le_depth_of_mem (List.mem_of_getElem? depth)) shallow⟩
  refine ⟨rfl, ?_, stands.tree? shallow, shallow, ?_, ?_, ?_⟩
  · rw [List.size_toArray, count]
    exact Nat.sub_add_cancel one
  · intro row r found child member
    obtain ⟨inside, -⟩ := Array.getElem?_eq_some_iff.mp found
    obtain ⟨sub, stands, -⟩ := every row inside
    rw [← Array.getElem?_toList] at found
    exact stands.child_lt found member
  · rw [List.range_eq_range']
    exact children_perm e 0
  · intro row inside
    obtain ⟨sub, stands, shallow'⟩ := every row inside
    exact ⟨sub, stands.tree? shallow', stands⟩

/-- Whether a source is accepted or not, each row of its table ends the rows of an expression. -/
theorem accurate_read (source : String) (cap : Nat) : (read source cap).2.Accurate := by
  rcases read_cases source cap with ⟨e, -, -, found⟩ | ⟨e, forest, -, found⟩ <;> rw [found]
  · exact Parse.Table.accurate_empty.add e
  · exact Parse.Table.accurate_empty.addAll forest

/-- A compiled source is the post-order listing of a tree within the cap. The recorded depths are
true of the first rows of the table, however few, be the source accepted or not. -/
theorem read_lists (source : String) (cap : Nat) :
    (∀ arena, parse source cap = .ok arena →
      (read source cap).2.rows = arena.rows ∧
        ∃ e, Expr.parse source cap = .ok e ∧ arena.Lists cap e) ∧
    ∀ n, ((read source cap).2.first n).RecordsDepths := by
  refine ⟨fun arena compiled => ?_, fun n => ((accurate_read source cap).first n).recordsDepths⟩
  unfold parse at compiled
  rcases read_cases source cap with ⟨e, parsed, shallow, found⟩ | ⟨e, forest, parsed, found⟩
  · rw [found] at compiled ⊢
    cases compiled
    exact ⟨by simp [Parse.Table.add, Parse.Table.empty, Expr.rows], e, parsed, lists_rows shallow⟩
  · rw [found] at compiled
    cases compiled

theorem read_lists_groupedSlice :
    (∃ arena, parse "-x.(y[:])" 5 = .ok arena ∧ arena.root = 7 ∧
        ∃ e, Expr.parse "-x.(y[:])" 5 = .ok e ∧ arena.Lists 5 e) ∧
      ((read "-x.(y[:])" 5).2.first 4).RecordsDepths := by
  let bounds := Expr.slice (.literal (.number (Number.ofNat 0)) ⟨6, 1⟩)
    (.literal (.number (Number.ofInt (-1))) ⟨7, 0⟩) ⟨6, 1⟩
  let member := Expr.index (.identifier "y" ⟨4, 1⟩) bounds ⟨5, 1⟩
  have parsed : Expr.parse "-x.(y[:])" 5 =
      .ok (.unary .minus (.field (.identifier "x" ⟨1, 1⟩) member ⟨2, 1⟩) ⟨0, 1⟩) := by
    with_unfolding_all rfl
  have compiled := parse_eq "-x.(y[:])" 5
  rw [parsed] at compiled
  obtain ⟨lists, records⟩ := read_lists "-x.(y[:])" 5
  exact ⟨⟨_, compiled, rfl, (lists _ compiled).2⟩, records 4⟩

end JsonQuery.Arena
