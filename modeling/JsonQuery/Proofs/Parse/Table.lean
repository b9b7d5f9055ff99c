import JsonQuery.Parse.Descent
import JsonQuery.Parse.Frame
import JsonQuery.Proofs.Expr.Listing

/-! Tables that list whole trees. A tree takes up consecutive rows, and adding a node whose
subexpressions are the last trees of a table makes one tree of them. Nothing else has to be known of
a table to say which tree a row stands for and what is recorded beside it. -/
namespace JsonQuery

namespace Parse.Table

variable {cap row : Nat} {t : Table} {a b e : Expr} {span : Span}

def add (t : Table) (e : Expr) : Table :=
  ⟨t.rows ++ (e.rowsFrom t.rows.size).toArray, t.depths ++ e.depths.toArray⟩

@[simp] theorem size_rows_add : (t.add e).rows.size = t.rows.size + e.size := by
  simp [add, Expr.length_rowsFrom]

@[simp] theorem size_depths_add : (t.add e).depths.size = t.depths.size + e.size := by
  simp [add]

theorem depthAt_add_of_lt (earlier : row < t.depths.size) :
    (t.add e).depthAt row = t.depthAt row := by
  simp [depthAt, add, Array.getElem?_append_left earlier]

/-- The depth of an expression is recorded beside its last row. -/
theorem depthAt_add (last : row + 1 = t.depths.size + e.size) :
    (t.add e).depthAt row = e.depth := by
  obtain ⟨before, parts⟩ := e.depths_eq_append
  have count : before.length + 1 = e.size := by simpa [parts] using e.length_depths
  have place : row = t.depths.size + before.length := by omega
  simp [depthAt, add, parts, place]

/-- A node completes the trees of its subexpressions when it is the last row of its own. -/
theorem push_of_parts {before : Table} {label : Label} {children : List Nat}
    (rows : before.rows.push ⟨label, children, e.span⟩ = (t.add e).rows)
    (depths : before.depths.push e.depth = (t.add e).depths)
    (depth : before.depthOver children = e.depth) :
    before.push cap ⟨label, children, e.span⟩ =
      (Operand.node cap e e.depth).map fun made => t.add made.expr := by
  unfold push Operand.node
  simp only [depth, rows, depths]
  split <;> rfl

theorem push_leaf (leaf : e.Leaf) (room : 0 < cap) :
    t.push cap ⟨e.label, [], e.span⟩ = .ok (t.add e) := by
  have one : ¬cap < 1 := by omega
  simp [push, depthOver, one, add, leaf.rows, leaf.depths]

/-- A table records a depth for each row. -/
def Even (t : Table) : Prop := t.depths.size = t.rows.size

theorem even_empty : empty.Even := rfl

theorem Even.add (even : t.Even) : (t.add e).Even := by
  unfold Even at even ⊢
  simp [even]

theorem push_unary (even : t.Even) {op : UnaryOp} (last : row + 1 = (t.add a).rows.size) :
    (t.add a).push cap ⟨.unary op, [row], span⟩ =
      (Operand.node cap (.unary op a span) (a.depth + 1)).map fun made => t.add made.expr := by
  have place : row = t.rows.size + a.size - 1 := by simp at last; omega
  have depth : (t.add a).depthAt row = a.depth := depthAt_add (by rw [even]; simpa using last)
  apply push_of_parts (e := .unary op a span)
  · rw [place]
    simp [add, Expr.rowsFrom, Expr.label, Expr.span]
  · simp [add, Expr.depths, Expr.depth]
  · simp [depthOver, depth, Expr.depth]

theorem push_pair (even : t.Even) {label : Label} {build : Expr → Expr → Span → Expr}
    (builds : Builds label build) {first second : Nat} (left : first + 1 = (t.add a).rows.size)
    (right : second + 1 = ((t.add a).add b).rows.size) :
    ((t.add a).add b).push cap ⟨label, [first, second], span⟩ =
      (Operand.node cap (build a b span) (max a.depth b.depth + 1)).map
        fun made => t.add made.expr := by
  have evenLeft : (t.add a).Even := even.add
  have depthLeft : ((t.add a).add b).depthAt first = a.depth := by
    rw [depthAt_add_of_lt (by rw [evenLeft]; omega), depthAt_add (by rw [even]; simpa using left)]
  have depthRight : ((t.add a).add b).depthAt second = b.depth :=
    depthAt_add (by rw [evenLeft]; simpa using right)
  have places : first = t.rows.size + a.size - 1 ∧ second = t.rows.size + a.size + b.size - 1 := by
    simp at left right
    omega
  have made := @push_of_parts cap t (build a b span) ((t.add a).add b) label [first, second]
  rw [builds.span, builds.depth] at made
  apply made
  · rw [places.1, places.2]
    simp [add, builds.rows, Expr.length_rowsFrom]
  · simp [add, builds.depths]
  · simp [depthOver, depthLeft, depthRight]

/-- A node that is added gets one row. -/
theorem size_of_push {t' : Table} {r : Row} (h : t.push cap r = .ok t') :
    t'.rows.size = t.rows.size + 1 := by
  unfold push at h
  split at h <;> cases h
  exact Array.size_push _

/-- Every row ends the rows of an expression whose depth is recorded beside it. -/
def Accurate (t : Table) : Prop :=
  t.Even ∧ ∀ row < t.rows.size, ∃ e, Stands 0 t.rows.toList row e ∧ t.depths[row]? = some e.depth

theorem accurate_empty : empty.Accurate := ⟨even_empty, nofun⟩

theorem Accurate.add (accurate : t.Accurate) (e : Expr) : (t.add e).Accurate := by
  obtain ⟨even, recorded⟩ := accurate
  refine ⟨even.add, fun row inside => ?_⟩
  rw [size_rows_add] at inside
  have listed : (t.add e).rows.toList = t.rows.toList ++ e.rowsFrom t.rows.size := by
    simp [Table.add]
  have depths : (t.add e).depths = t.depths ++ e.depths.toArray := rfl
  rw [listed, depths]
  by_cases earlier : row < t.rows.size
  · obtain ⟨sub, stands, depth⟩ := recorded row earlier
    exact ⟨sub, stands.append _, by rw [Array.getElem?_append_left (even ▸ earlier), depth]⟩
  · obtain ⟨sub, stands, depth⟩ := exists_stands e t.rows.size (Nat.not_lt.mp earlier) inside
    have place : Stands (0 + t.rows.toList.length) (e.rowsFrom t.rows.size) row sub := by
      simpa using stands
    refine ⟨sub, place.prepend, ?_⟩
    rw [Array.getElem?_append_right (even ▸ Nat.not_lt.mp earlier), even]
    simpa using depth

/-- The recorded depth of each node is that of the expression met on the way down from its row. -/
def RecordsDepths (t : Table) : Prop :=
  t.depths.size = t.rows.size ∧ ∀ row < t.rows.size, ∃ e,
    Row.tree? t.rows t.rows.size row = some e ∧ t.depths[row]? = some e.depth

theorem Accurate.recordsDepths (accurate : t.Accurate) : t.RecordsDepths := by
  obtain ⟨even, recorded⟩ := accurate
  refine ⟨even, fun row inside => ?_⟩
  obtain ⟨sub, stands, depth⟩ := recorded row inside
  have shallow : sub.depth ≤ t.rows.size :=
    Nat.le_trans sub.depth_le_size (Nat.le_trans stands.size_le inside)
  exact ⟨sub, stands.tree? shallow, depth⟩

def addAll (t : Table) (forest : List Expr) : Table := forest.foldl add t

theorem Accurate.addAll (accurate : t.Accurate) (forest : List Expr) :
    (t.addAll forest).Accurate := by
  induction forest generalizing t with
  | nil => exact accurate
  | cons e forest ih => exact ih (accurate.add e)

def first (t : Table) (n : Nat) : Table := ⟨t.rows.take n, t.depths.take n⟩

/-- No node depends on those that are added later. -/
theorem Accurate.first (accurate : t.Accurate) (n : Nat) : (t.first n).Accurate := by
  obtain ⟨even, recorded⟩ := accurate
  unfold Even at even
  refine ⟨?_, fun row inside => ?_⟩
  · simp [Even, Table.first, even]
  · have early : row < n ∧ row < t.rows.size := by simpa [Table.first, Nat.lt_min] using inside
    obtain ⟨sub, stands, depth⟩ := recorded row early.2
    refine ⟨sub, ?_, ?_⟩
    · simpa [Table.first] using stands.take early.1
    · simpa [Table.first, Array.getElem?_extract, even, early, Nat.lt_min] using depth

end Parse.Table
end JsonQuery
