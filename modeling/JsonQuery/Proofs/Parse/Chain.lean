import JsonQuery.Proofs.Parse.Relocation
import JsonQuery.Proofs.Token.Scanning

/-! Chains of operands with operators between them, and the tree of a chain. The tree is told by the
operator at its root: what stands before it is its left side and what stands after it its right
side. Compared with the binding powers, the operator at the root is the one that completes all that
stands before it and takes in all that stands after it. -/
namespace JsonQuery

/-- The same expression without the places of its nodes. -/
def Expr.plain (e : Expr) : Expr := e.mapSpan fun _ => ⟨0, 0⟩

namespace Parse

inductive Joiner where
  | binary (op : BinaryOp)
  | member
  | bound
  | condition
deriving DecidableEq

namespace Joiner

def symbol : Joiner → String
  | .binary op => op.symbol
  | .member => "."
  | .bound => ":"
  | .condition => "where"

def build : Joiner → Expr → Expr → Expr
  | .binary op, a, b => .binary op a b ⟨0, 0⟩
  | .member, a, b => .field a b ⟨0, 0⟩
  | .bound, a, b => .slice a b ⟨0, 0⟩
  | .condition, a, b => .filter a b ⟨0, 0⟩

def power : Joiner := .binary (.arithmetic .power)

/-- How tightly operators bind, in comparison with each other. A condition takes no part in this. -/
def level : Joiner → Nat
  | .condition => 0
  | .binary .or => 1
  | .binary .and => 2
  | .binary .isIn | .binary .contains | .binary .startsWith | .binary .endsWith
  | .binary .before | .binary .after => 3
  | .binary .equal | .binary .notEqual | .binary (.inequality _) | .bound => 4
  | .binary (.arithmetic .add) | .binary (.arithmetic .subtract) => 5
  | .binary (.arithmetic .multiply) | .binary (.arithmetic .divide)
  | .binary (.arithmetic .remainder) => 6
  | .member => 7
  | .binary (.arithmetic .power) => 8

/-- The last place of an operator that binds least. -/
def loosest : List Joiner → Nat
  | [] => 0
  | op :: ops => if ∃ other ∈ ops, other.level ≤ op.level then loosest ops + 1 else 0

/-- The place of the operator at the root. The first condition takes all that follows, powers group
to the right, and all else groups to the left. -/
def root (ops : List Joiner) : Nat :=
  if .condition ∈ ops then ops.idxOf .condition
  else if ∀ op ∈ ops, op = power then 0
  else loosest ops

def rootOf (links : List (Joiner × Expr)) : Nat := root (links.map Prod.fst)

end Joiner

/-- The tree of a first operand and the operators and operands after it. -/
def tree (x : Expr) (links : List (Joiner × Expr)) : Expr :=
  match _split : links.drop (Joiner.rootOf links) with
  | [] => x
  | (op, y) :: after =>
    op.build (tree x (links.take (Joiner.rootOf links))) (tree y after)
termination_by links.length
decreasing_by
  · have left := congrArg List.length _split
    rw [List.length_drop, List.length_cons] at left
    rw [List.length_take]
    omega
  · have left := congrArg List.length _split
    rw [List.length_drop, List.length_cons] at left
    omega

def IsSingle (source : String) (kind : TokenKind) (text : String) : Prop :=
  (Scan.of source).tokens.map Token.plain = [⟨kind, text, ⟨0, 0⟩⟩] ∧
    ∃ eof, (Scan.of source).last = .ok eof

/-- The texts of operands and the trees that they stand for. A number has a value if it has at most
one point. What stands in parentheses or brackets can be any text that is accepted by itself, and it
stands for what it is accepted as. -/
inductive OperandText : String → Expr → Prop where
  | identifier {source name : String} : IsSingle source .identifier name →
      OperandText source (.identifier name ⟨0, 0⟩)
  | string {source content : String} : IsSingle source .string content →
      OperandText source (.literal (.string content) ⟨0, 0⟩)
  | number {source digits : String} {n : Float} : IsSingle source .number digits →
      Number.ofLiteral? digits.toList = some n → OperandText source (.literal (.number n) ⟨0, 0⟩)
  | group {source : String} {cap : Nat} {e : Expr} : Expr.parse source cap = .ok e →
      OperandText ("(" ++ source ++ ")") e.plain
  | index {object source : String} {cap : Nat} {x e : Expr} : OperandText object x →
      Expr.parse source cap = .ok e →
      OperandText (object ++ "[" ++ source ++ "]") (.index x e.plain ⟨0, 0⟩)

/-- What sets the parts of a chain apart. -/
def IsBlanks (text : String) : Prop := text ≠ "" ∧ ∀ c ∈ text.toList, Text.isBlank c = true

/-- The texts of chains, with their first operand and the operators and operands after it. -/
inductive Chain : String → Expr → List (Joiner × Expr) → Prop where
  | operand {source : String} {x : Expr} : OperandText source x → Chain source x []
  | link {first before after rest : String} {x y : Expr} {links : List (Joiner × Expr)}
      (op : Joiner) : OperandText first x → IsBlanks before → IsBlanks after → Chain rest y links →
      Chain (first ++ before ++ op.symbol ++ after ++ rest) x ((op, y) :: links)

@[simp] theorem tree_nil (x : Expr) : tree x [] = x := by
  rw [tree]
  split
  · rfl
  · rename_i h
    simp at h

theorem tree_append {x y : Expr} {before after : List (Joiner × Expr)} {op : Joiner}
    (place : Joiner.rootOf (before ++ (op, y) :: after) = before.length) :
    tree x (before ++ (op, y) :: after) = op.build (tree x before) (tree y after) := by
  rw [tree]
  split
  · rename_i h
    rw [place] at h
    simp at h
  · rename_i h
    simp only [place, List.drop_left, List.cons.injEq, Prod.mk.injEq] at h
    obtain ⟨⟨rfl, rfl⟩, rfl⟩ := h
    rw [place, List.take_left]

namespace Joiner

def kind : Joiner → TokenKind
  | .condition => .filter
  | .binary .or => .or
  | .binary .and => .and
  | .binary .isIn | .binary .contains | .binary .startsWith | .binary .endsWith
  | .binary .before | .binary .after => .stringCompare
  | .binary .equal | .binary .notEqual | .binary (.inequality _) => .comparison
  | .bound => .slice
  | .binary (.arithmetic .add) | .binary (.arithmetic .subtract) => .addSub
  | .binary (.arithmetic .multiply) | .binary (.arithmetic .divide)
  | .binary (.arithmetic .remainder) => .mulDiv
  | .member => .dot
  | .binary (.arithmetic .power) => .power

def pending (left : Operand) : Joiner → Pending
  | .binary op => .right op left ⟨0, 0⟩
  | .member => .member left ⟨0, 0⟩
  | .bound => .bound left ⟨0, 0⟩
  | .condition => .condition left ⟨0, 0⟩

def threshold : Joiner → Nat
  | .binary op => op.threshold
  | .member => TokenKind.dot.bindingPower
  | .bound => TokenKind.slice.bindingPower
  | .condition => 0

@[simp] theorem threshold_pending (left : Operand) (op : Joiner) :
    (op.pending left).threshold = op.threshold := by
  cases op <;> rfl

def levelPower : Nat → Nat
  | 0 | 1 => 1
  | 2 => 2
  | 3 => 3
  | 4 => 5
  | 5 => 10
  | 6 => 15
  | 7 => 40
  | _ => 50

/-- The thresholds of the levels, which differ from the powers where grouping is to the right. -/
def levelThreshold : Nat → Nat
  | 0 => 0
  | 8 => 49
  | n => levelPower n

theorem bindingPower_kind (op : Joiner) : op.kind.bindingPower = levelPower op.level := by
  cases op with
  | binary op =>
    cases op with
    | arithmetic op => cases op <;> rfl
    | _ => rfl
  | _ => rfl

theorem threshold_eq (op : Joiner) : op.threshold = levelThreshold op.level := by
  cases op with
  | binary op =>
    cases op with
    | arithmetic op => cases op <;> rfl
    | _ => rfl
  | _ => rfl

theorem level_le (op : Joiner) : op.level ≤ 8 := by
  unfold level
  split <;> decide

theorem level_pos {op : Joiner} (other : op ≠ .condition) : 0 < op.level := by
  unfold level
  split <;> simp_all

theorem level_lt_of_ne_power {op : Joiner} (other : op ≠ power) : op.level < 8 := by
  unfold level
  split <;> simp_all [power]

theorem levelPower_pos (n : Nat) : 0 < levelPower n := by
  unfold levelPower
  split <;> decide

theorem levelPower_le : ∀ n ≤ 8, ∀ m ≤ n, m < 8 → 0 < m → levelPower m ≤ levelThreshold n := by
  decide

theorem levelThreshold_lt : ∀ n ≤ 8, ∀ m < n, levelThreshold m < levelPower n := by
  decide

theorem bindingPower_pos (op : Joiner) : 0 < op.kind.bindingPower := by
  rw [bindingPower_kind]
  exact levelPower_pos _

/-- An operator is at the root when no operator before it takes it in, and it takes in all operators
after it. -/
structure Rooted (before : List Joiner) (op : Joiner) (after : List Joiner) : Prop where
  closes : ∀ other ∈ before, op.kind.bindingPower ≤ other.threshold
  admits : ∀ other ∈ after, op.threshold < other.kind.bindingPower

theorem rooted_condition {before after : List Joiner} (first : .condition ∉ before) :
    Rooted before .condition after where
  closes other member := by
    have positive : 0 < other.level := level_pos fun same => first (same ▸ member)
    rw [threshold_eq]
    exact levelPower_le _ (level_le other) 1 positive (by decide) (by decide)
  admits other _ := bindingPower_pos other

theorem rooted_power {after : List Joiner} (powers : ∀ other ∈ after, other = power) :
    Rooted [] power after where
  closes _ member := absurd member List.not_mem_nil
  admits other member := by
    rw [powers other member]
    decide

/-- The last operator of the least level. The tightest level of all is left out, since its operators
group the other way. -/
theorem rooted_loosest {before after : List Joiner} {op : Joiner} (other : op ≠ .condition)
    (loose : op.level < 8) (least : ∀ b ∈ before, op.level ≤ b.level)
    (last : ∀ a ∈ after, op.level < a.level) : Rooted before op after where
  closes b member := by
    rw [bindingPower_kind, threshold_eq]
    exact levelPower_le _ (level_le b) _ (least b member) loose (level_pos other)
  admits a member := by
    rw [bindingPower_kind, threshold_eq]
    exact levelThreshold_lt _ (level_le a) _ (last a member)

theorem loosest_spec {ops : List Joiner} (some : ops ≠ []) :
    ∃ before op after, ops = before ++ op :: after ∧ loosest ops = before.length ∧
      (∀ other ∈ ops, op.level ≤ other.level) ∧ ∀ other ∈ after, op.level < other.level := by
  induction ops with
  | nil => exact absurd rfl some
  | cons first ops ih =>
    unfold loosest
    split
    · rename_i later
      obtain ⟨other, member, le⟩ := later
      obtain ⟨before, op, after, rfl, place, least, last⟩ := ih (List.ne_nil_of_mem member)
      refine ⟨first :: before, op, after, rfl, by rw [place, List.length_cons], ?_, last⟩
      intro b member'
      rcases List.mem_cons.mp member' with rfl | inside
      · exact Nat.le_trans (least other member) le
      · exact least b inside
    · rename_i alone
      have above : ∀ other ∈ ops, first.level < other.level := by
        intro other member
        exact Nat.lt_of_not_le fun le => alone ⟨other, member, le⟩
      refine ⟨[], first, ops, rfl, rfl, ?_, above⟩
      intro b member
      rcases List.mem_cons.mp member with rfl | inside
      · exact Nat.le_refl _
      · exact Nat.le_of_lt (above b inside)

/-- The root splits the operators as the binding powers do. -/
theorem root_spec {ops : List Joiner} (some : ops ≠ []) :
    ∃ before op after, ops = before ++ op :: after ∧ root ops = before.length ∧
      Rooted before op after := by
  unfold root
  split
  · rename_i filtered
    obtain ⟨before, after, rfl, first⟩ := List.eq_append_cons_of_mem filtered
    refine ⟨before, .condition, after, rfl, ?_, rooted_condition first⟩
    rw [List.idxOf_append, if_neg first, List.idxOf_cons_self, Nat.zero_add]
  · rename_i unfiltered
    split
    · rename_i powers
      obtain ⟨first, after, rfl⟩ := List.exists_cons_of_ne_nil some
      obtain rfl := powers first (.head _)
      exact ⟨[], power, after, rfl, rfl, rooted_power fun op member => powers op (.tail _ member)⟩
    · rename_i mixed
      obtain ⟨before, op, after, rfl, place, least, last⟩ := loosest_spec some
      refine ⟨before, op, after, rfl, place, rooted_loosest ?_ ?_ ?_ last⟩
      · rintro rfl
        simp at unfiltered
      · simp only [Classical.not_forall] at mixed
        obtain ⟨other, member, different⟩ := mixed
        exact Nat.lt_of_le_of_lt (least other member) (level_lt_of_ne_power different)
      · intro b member
        exact least b (List.mem_append_left _ member)

end Joiner

/-- A chain is a single operand, or it is made of the chains on both sides of its root. -/
theorem root_induction {motive : List (Joiner × Expr) → Prop} (nil : motive [])
    (node : ∀ before op y after, Joiner.rootOf (before ++ (op, y) :: after) = before.length →
      Joiner.Rooted (before.map Prod.fst) op (after.map Prod.fst) → motive before → motive after →
      motive (before ++ (op, y) :: after)) (links : List (Joiner × Expr)) : motive links := by
  induction size : links.length using Nat.strongRecOn generalizing links with
  | ind n ih =>
    by_cases empty : links = []
    · rw [empty]
      exact nil
    · obtain ⟨ops, op, ops', split, place, rooted⟩ :=
        Joiner.root_spec (mt List.map_eq_nil_iff.mp empty : links.map Prod.fst ≠ [])
      obtain ⟨before, rest, rfl, rfl, others⟩ := List.map_eq_append_iff.mp split
      obtain ⟨⟨op, y⟩, after, rfl, rfl, rfl⟩ := List.map_eq_cons_iff.mp others
      rw [List.length_map] at place
      rw [List.length_append, List.length_cons] at size
      exact node before op y after place rooted (ih _ (by omega) before rfl)
        (ih _ (by omega) after rfl)

end Parse
end JsonQuery
