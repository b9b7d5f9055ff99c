import JsonQuery.Expr.Listing
import Mathlib.Data.List.Perm.Basic

/-! The listing of an expression. Every row of it ends the rows of a subexpression, and the
references from row to row lead through the expression: each row but the last is referred to once,
from further down. -/
namespace JsonQuery

/-- The node that a label makes of subexpressions, if it takes as many. -/
def Label.node? : Label → List Expr → Span → Option Expr
  | .literal value, [], span => some (.literal value span)
  | .identifier name, [], span => some (.identifier name span)
  | .field, [a, b], span => some (.field a b span)
  | .index, [a, b], span => some (.index a b span)
  | .slice, [a, b], span => some (.slice a b span)
  | .unary op, [a], span => some (.unary op a span)
  | .binary op, [a, b], span => some (.binary op a b span)
  | .filter, [a, b], span => some (.filter a b span)
  | _, _, _ => none

/-- The expression that is met on the way down from a row along the references. There is none when a
reference leads out of the table, or when the way is longer than a limit. -/
def Row.tree? (rows : Array Row) : Nat → Nat → Option Expr
  | 0, _ => none
  | limit + 1, row => do
    let r ← rows[row]?
    let below ← r.children.mapM (tree? rows limit)
    r.label.node? below r.span

namespace Expr

def depths : Expr → List Nat
  | literal _ _ | identifier _ _ => [1]
  | unary _ a _ => a.depths ++ [a.depth + 1]
  | field a b _ | index a b _ | slice a b _ | binary _ a b _ | filter a b _ =>
    a.depths ++ b.depths ++ [max a.depth b.depth + 1]

@[simp] theorem length_depths (e : Expr) : e.depths.length = e.size := by
  induction e <;> simp_all [depths, size, Nat.add_assoc]

theorem depths_eq_append (e : Expr) : ∃ before, e.depths = before ++ [e.depth] := by
  cases e with
  | literal value span | identifier name span => exact ⟨[], rfl⟩
  | unary op a span | field a b span | index a b span | slice a b span | binary op a b span
  | filter a b span => exact ⟨_, rfl⟩

theorem le_depth_of_mem {e : Expr} {d : Nat} (member : d ∈ e.depths) : d ≤ e.depth := by
  induction e with
  | literal value span | identifier name span =>
    rw [depths, List.mem_singleton] at member
    exact Nat.le_of_eq member
  | unary op a span ih =>
    rw [depths, List.mem_append, List.mem_singleton] at member
    rw [depth]
    rcases member with below | rfl
    · exact Nat.le_succ_of_le (ih below)
    · exact Nat.le_refl _
  | field a b span iha ihb | index a b span iha ihb | slice a b span iha ihb
  | binary op a b span iha ihb | filter a b span iha ihb =>
    rw [depths, List.mem_append, List.mem_append, List.mem_singleton] at member
    rw [depth]
    rcases member with (first | second) | rfl
    · have below := iha first
      omega
    · have below := ihb second
      omega
    · exact Nat.le_refl _

theorem depth_pos (e : Expr) : 0 < e.depth := by
  cases e <;> simp [depth]

theorem depth_le_size (e : Expr) : e.depth ≤ e.size := by
  induction e <;> simp only [depth, size] <;> omega

end Expr

/-- A node without subexpressions has a row and a depth of its own, and no more. -/
structure Expr.Leaf (e : Expr) : Prop where
  rows (start : Nat) : e.rowsFrom start = [⟨e.label, [], e.span⟩]
  depths : e.depths = [1]
  depth : e.depth = 1
  size : e.size = 1
  node : e.label.node? [] e.span = some e

theorem leaf_literal (value : Literal) (span : Span) : (Expr.literal value span).Leaf := by
  constructor <;> intros <;> rfl

theorem leaf_identifier (name : String) (span : Span) : (Expr.identifier name span).Leaf := by
  constructor <;> intros <;> rfl

structure Builds (label : Label) (build : Expr → Expr → Span → Expr) : Prop where
  rows (a b : Expr) (span : Span) (start : Nat) : (build a b span).rowsFrom start =
    a.rowsFrom start ++ b.rowsFrom (start + a.size) ++
      [⟨label, [start + a.size - 1, start + a.size + b.size - 1], span⟩]
  depths (a b : Expr) (span : Span) :
    (build a b span).depths = a.depths ++ b.depths ++ [max a.depth b.depth + 1]
  depth (a b : Expr) (span : Span) : (build a b span).depth = max a.depth b.depth + 1
  size (a b : Expr) (span : Span) : (build a b span).size = a.size + b.size + 1
  span (a b : Expr) (span : Span) : (build a b span).span = span
  node (a b : Expr) (span : Span) : label.node? [a, b] span = some (build a b span)

theorem builds_field : Builds .field .field := by constructor <;> intros <;> rfl

theorem builds_index : Builds .index .index := by constructor <;> intros <;> rfl

theorem builds_slice : Builds .slice .slice := by constructor <;> intros <;> rfl

theorem builds_binary (op : BinaryOp) : Builds (.binary op) (.binary op) := by
  constructor <;> intros <;> rfl

theorem builds_filter : Builds .filter .filter := by constructor <;> intros <;> rfl

/-- Induction on expressions, with one case for all nodes of two subexpressions. -/
@[elab_as_elim] theorem Expr.shape_induction {motive : Expr → Prop}
    (leaf : ∀ e, Leaf e → motive e)
    (unary : ∀ op a span, motive a → motive (.unary op a span))
    (pair : ∀ label build a b span, Builds label build → motive a → motive b →
      motive (build a b span)) (e : Expr) : motive e := by
  induction e with
  | literal value span => exact leaf _ (leaf_literal value span)
  | identifier name span => exact leaf _ (leaf_identifier name span)
  | unary op a span ih => exact unary op a span ih
  | field a b span iha ihb => exact pair _ _ a b span builds_field iha ihb
  | index a b span iha ihb => exact pair _ _ a b span builds_index iha ihb
  | slice a b span iha ihb => exact pair _ _ a b span builds_slice iha ihb
  | binary op a b span iha ihb => exact pair _ _ a b span (builds_binary op) iha ihb
  | filter a b span iha ihb => exact pair _ _ a b span builds_filter iha ihb

/-- The rows of an expression stand together and end with a certain row, in a part of a table that
begins at a certain row. -/
def Stands (start : Nat) (rows : List Row) (row : Nat) (e : Expr) : Prop :=
  ∃ before after, rows = before ++ e.rowsFrom (start + before.length) ++ after ∧
    row + 1 = start + before.length + e.size

section Standing

variable {start row limit : Nat} {rows : List Row} {label : Label} {a b e : Expr} {span : Span}
  {build : Expr → Expr → Span → Expr}

theorem Stands.append (h : Stands start rows row e) (more : List Row) :
    Stands start (rows ++ more) row e := by
  obtain ⟨before, after, rfl, last⟩ := h
  exact ⟨before, after ++ more, by simp, last⟩

theorem Stands.prepend {first : List Row} (h : Stands (start + first.length) rows row e) :
    Stands start (first ++ rows) row e := by
  obtain ⟨before, after, rfl, last⟩ := h
  refine ⟨first ++ before, after, ?_, ?_⟩
  · simp [Nat.add_assoc]
  · simp only [List.length_append]
    omega

/-- The rows of an expression end with that of the whole. -/
theorem stands_self (last : row + 1 = start + e.size) : Stands start (e.rowsFrom start) row e :=
  ⟨[], [], by simp, by simpa using last⟩

theorem Stands.size_le (h : Stands 0 rows row e) : e.size ≤ row + 1 := by
  obtain ⟨before, after, -, last⟩ := h
  omega

/-- Rows that end before some others are not affected by what comes after these. -/
theorem Stands.take (h : Stands 0 rows row e) {n : Nat} (early : row < n) :
    Stands 0 (rows.take n) row e := by
  obtain ⟨before, after, rfl, last⟩ := h
  have count : (before ++ e.rowsFrom (0 + before.length)).length ≤ n := by
    simp only [List.length_append, Expr.length_rowsFrom]
    omega
  exact ⟨before, after.take (n - (before ++ e.rowsFrom (0 + before.length)).length),
    by rw [List.take_append, List.take_of_length_le count], last⟩

/-- The last row of a node without subexpressions refers to no other row. -/
theorem Stands.leaf (leaf : e.Leaf) (h : Stands 0 rows row e) :
    rows[row]? = some ⟨e.label, [], e.span⟩ := by
  obtain ⟨before, after, rfl, last⟩ := h
  have place : row = before.length := by simpa [leaf.size] using last
  simp [place, leaf.rows]

/-- The rows of the operand end before that of the operation. -/
theorem Stands.unary {op : UnaryOp} (h : Stands 0 rows row (.unary op a span)) :
    ∃ child, row = child + 1 ∧ rows[row]? = some ⟨.unary op, [child], span⟩ ∧
      Stands 0 rows child a := by
  obtain ⟨before, after, rfl, last⟩ := h
  have one : 0 < a.size := a.size_pos
  simp only [Nat.zero_add, Expr.size] at last ⊢
  have place : row = (before ++ a.rowsFrom before.length).length := by
    simp only [List.length_append, Expr.length_rowsFrom]
    omega
  refine ⟨before.length + a.size - 1, by omega, ?_,
    before, ⟨.unary op, [before.length + a.size - 1], span⟩ :: after, ?_, by omega⟩
  · simp [place, Expr.rowsFrom, Expr.label, Expr.span]
  · simp [Expr.rowsFrom, Expr.label, Expr.span]

/-- The rows of the second subexpression end before that of the node, and those of the first end
before these. -/
theorem Stands.pair (builds : Builds label build) (h : Stands 0 rows row (build a b span)) :
    ∃ left right, row = right + 1 ∧ right = left + b.size ∧
      rows[row]? = some ⟨label, [left, right], span⟩ ∧ Stands 0 rows left a ∧
      Stands 0 rows right b := by
  obtain ⟨before, after, rfl, last⟩ := h
  have one : 0 < a.size := a.size_pos
  have one' : 0 < b.size := b.size_pos
  simp only [Nat.zero_add, builds.size] at last ⊢
  have count : (before ++ a.rowsFrom before.length).length = before.length + a.size := by
    rw [List.length_append, Expr.length_rowsFrom]
  have place : row =
      (before ++ a.rowsFrom before.length ++ b.rowsFrom (before.length + a.size)).length := by
    rw [List.length_append, count, Expr.length_rowsFrom]
    omega
  let last : Row := ⟨label, [before.length + a.size - 1, before.length + a.size + b.size - 1], span⟩
  have parts : before ++ (build a b span).rowsFrom before.length ++ after =
      before ++ a.rowsFrom before.length ++ b.rowsFrom (before.length + a.size) ++
        last :: after := by
    simp [builds.rows, last]
  rw [parts]
  refine ⟨before.length + a.size - 1, before.length + a.size + b.size - 1, by omega, by omega, ?_,
    ⟨before, b.rowsFrom (before.length + a.size) ++ last :: after, ?_, by omega⟩,
    ⟨before ++ a.rowsFrom before.length, last :: after, ?_, by omega⟩⟩
  · simp [place, last]
  · simp
  · rw [Nat.zero_add, count]

/-- References lead to earlier rows. -/
theorem Stands.child_lt (h : Stands 0 rows row e) {r : Row} (found : rows[row]? = some r)
    {child : Nat} (member : child ∈ r.children) : child < row := by
  cases e using Expr.shape_induction with
  | leaf e leaf =>
    rw [h.leaf leaf] at found
    cases found
    cases member
  | unary op a span _ =>
    obtain ⟨child', rfl, found', -⟩ := h.unary
    rw [found'] at found
    cases found
    rw [List.mem_singleton] at member
    omega
  | pair label build a b span builds _ _ =>
    obtain ⟨left, right, rfl, rfl, found', -, -⟩ := h.pair builds
    rw [found'] at found
    cases found
    simp only [List.mem_cons, List.not_mem_nil, or_false] at member
    omega

/-- Going down from the last row of an expression meets the expression. -/
theorem Stands.tree? {rows : Array Row} (h : Stands 0 rows.toList row e)
    (room : e.depth ≤ limit) : Row.tree? rows limit row = some e := by
  induction e using Expr.shape_induction generalizing row limit with
  | leaf e leaf =>
    obtain ⟨limit, rfl⟩ : ∃ n, limit = n + 1 :=
      Nat.exists_eq_add_one.mpr (Nat.lt_of_lt_of_le e.depth_pos room)
    have found := h.leaf leaf
    rw [Array.getElem?_toList] at found
    simp [Row.tree?, found, leaf.node]
  | unary op a span ih =>
    obtain ⟨limit, rfl⟩ : ∃ n, limit = n + 1 := Nat.exists_eq_add_one.mpr (Nat.zero_lt_of_lt room)
    obtain ⟨child, -, found, stands⟩ := h.unary
    have below : Row.tree? rows limit child = some a := ih stands (Nat.le_of_succ_le_succ room)
    rw [Array.getElem?_toList] at found
    simp [Row.tree?, found, below, Label.node?]
  | pair label build a b span builds iha ihb =>
    rw [builds.depth] at room
    obtain ⟨limit, rfl⟩ : ∃ n, limit = n + 1 := Nat.exists_eq_add_one.mpr (Nat.zero_lt_of_lt room)
    obtain ⟨left, right, -, -, found, standsLeft, standsRight⟩ := h.pair builds
    have first : Row.tree? rows limit left = some a := iha standsLeft (by omega)
    have second : Row.tree? rows limit right = some b := ihb standsRight (by omega)
    rw [Array.getElem?_toList] at found
    simp [Row.tree?, found, first, second, builds.node]

/-- The last row of a listing is that of the whole, and its depth is the last of the depths. -/
theorem exists_stands_last (last : row + 1 = start + e.size) :
    ∃ sub, Stands start (e.rowsFrom start) row sub ∧ e.depths[row - start]? = some sub.depth := by
  obtain ⟨before, parts⟩ := e.depths_eq_append
  have count : before.length + 1 = e.size := by simpa [parts] using e.length_depths
  have place : row - start = before.length := by omega
  exact ⟨e, stands_self last, by simp [parts, place]⟩

/-- Every row of a listing ends the rows of a subexpression, whose depth is at the same place in the
depths. -/
theorem exists_stands (e : Expr) (start : Nat) {row : Nat} (above : start ≤ row)
    (below : row < start + e.size) : ∃ sub, Stands start (e.rowsFrom start) row sub ∧
      e.depths[row - start]? = some sub.depth := by
  induction e using Expr.shape_induction generalizing start row with
  | leaf e leaf =>
    rw [leaf.size] at below
    exact exists_stands_last (by rw [leaf.size]; omega)
  | unary op a span ih =>
    by_cases last : row + 1 = start + (Expr.unary op a span).size
    · exact exists_stands_last last
    rw [Expr.size] at below last
    obtain ⟨sub, stands, depth⟩ := ih start above (by omega)
    have early : row - start < a.depths.length := by rw [Expr.length_depths]; omega
    refine ⟨sub, stands.append _, ?_⟩
    rw [Expr.depths, List.getElem?_append_left early, depth]
  | pair label build a b span builds iha ihb =>
    by_cases last : row + 1 = start + (build a b span).size
    · exact exists_stands_last last
    rw [builds.size] at below last
    rw [builds.rows, builds.depths]
    have countA : a.depths.length = a.size := a.length_depths
    have countB : b.depths.length = b.size := b.length_depths
    by_cases first : row < start + a.size
    · obtain ⟨sub, stands, depth⟩ := iha start above first
      have early : row - start < a.depths.length := by omega
      refine ⟨sub, (stands.append _).append _, ?_⟩
      rw [List.append_assoc, List.getElem?_append_left early, depth]
    · obtain ⟨sub, stands, depth⟩ := @ihb (start + a.size) row (by omega) (by omega)
      rw [← a.length_rowsFrom start] at stands
      have late : a.depths.length ≤ row - start := by omega
      have early : row - (start + a.size) < b.depths.length := by omega
      have second : row - start - a.depths.length = row - (start + a.size) := by omega
      refine ⟨sub, ?_, ?_⟩
      · rw [← a.length_rowsFrom start]
        exact stands.prepend.append _
      · rw [List.append_assoc, List.getElem?_append_right late, second,
          List.getElem?_append_left early, depth]

/-- The rows of a listing are those before the last and the last. -/
theorem range'_size (e : Expr) (start : Nat) :
    List.range' start (e.size - 1) ++ [start + e.size - 1] = List.range' start e.size := by
  obtain ⟨n, count⟩ : ∃ n, e.size = n + 1 := Nat.exists_eq_add_one.mpr e.size_pos
  rw [count, List.range'_concat]
  simp

/-- All rows of a listing but the last are referred to once. -/
theorem children_perm (e : Expr) (start : Nat) :
    ((e.rowsFrom start).flatMap Row.children).Perm (List.range' start (e.size - 1)) := by
  induction e using Expr.shape_induction generalizing start with
  | leaf e leaf =>
    rw [leaf.rows, leaf.size]
    exact .nil
  | unary op a span ih =>
    have listed := (ih start).append_right [start + a.size - 1]
    rw [range'_size] at listed
    simpa [Expr.rowsFrom, Expr.size] using listed
  | pair label build a b span builds iha ihb =>
    have listedA := (iha start).append_right [start + a.size - 1]
    have listedB := (ihb (start + a.size)).append_right [start + a.size + b.size - 1]
    rw [range'_size] at listedA listedB
    rw [builds.rows, builds.size]
    have split : List.range' start (a.size + b.size + 1 - 1) =
        List.range' start a.size ++ List.range' (start + a.size) b.size := by
      simp
    rw [split]
    refine List.Perm.trans ?_ (listedA.append listedB)
    have swapped : ((b.rowsFrom (start + a.size)).flatMap Row.children ++ [start + a.size - 1]).Perm
        ([start + a.size - 1] ++ (b.rowsFrom (start + a.size)).flatMap Row.children) :=
      List.perm_append_comm
    have placed := (swapped.append_left ((a.rowsFrom start).flatMap Row.children)).append_right
      [start + a.size + b.size - 1]
    simpa using placed

end Standing
end JsonQuery
