import JsonQuery.Number.Read
import JsonQuery.Token.Scan

/-! The phrases of expressions, as sequences of tokens. An expression consists of units with
operators between them, a unit is an operand with signs before it and brackets after it, and how
tightly the operators bind is of no concern here. -/
namespace JsonQuery

/-- A literal has a value unless there is a second point. -/
theorem Number.isSome_ofLiteral?_iff (text : List Char) :
    (Number.ofLiteral? text).isSome ↔ text.count '.' ≤ 1 := by
  have same : (text.filter (· != '_')).count '.' = text.count '.' := List.count_filter rfl
  rw [← same]
  unfold ofLiteral?
  dsimp only
  generalize text.filter (· != '_') = digits
  have whole : (digits.takeWhile (· != '.')).count '.' = 0 := by
    rw [List.count_eq_zero]
    intro member
    simpa using List.all_eq_true.mp List.all_takeWhile '.' member
  have split : digits.count '.' = (digits.dropWhile (· != '.')).count '.' := by
    conv => lhs; rw [← @List.takeWhile_append_dropWhile _ (· != '.') digits]
    rw [List.count_append, whole, Nat.zero_add]
  rw [split]
  cases rest : digits.dropWhile (· != '.') with
  | nil => simp
  | cons c fraction =>
    have point : c = '.' := by
      have head := List.head_dropWhile_not (· != '.')
        (by simp [rest] : digits.dropWhile (· != '.') ≠ [])
      simpa [rest] using head
    subst point
    rw [List.count_cons_self]
    by_cases second : '.' ∈ fraction
    · have more := List.one_le_count_iff.mpr second
      simp [second, Nat.ne_of_gt more]
    · simp [second, List.count_eq_zero_of_not_mem second]

namespace Token

/-- Tokens that stand before an operand. The colon is one of them, since a slice may leave out its
first bound. -/
def IsPrefix (t : Token) : Prop := t.kind = .not ∨ t.kind = .addSub ∨ t.kind = .slice

/-- Tokens that join two operands. A lone exclamation mark is read as a comparison, but it is
none. -/
def IsInfix (t : Token) : Prop :=
  match t.kind with
  | .addSub | .mulDiv | .power | .and | .or | .stringCompare | .filter | .dot | .slice => True
  | .comparison => t.text ≠ "!"
  | _ => False

/-- Tokens that are operands by themselves. A number is one if it has no second point. -/
def IsAtom (t : Token) : Prop :=
  match t.kind with
  | .identifier | .string => True
  | .number => t.text.toList.count '.' ≤ 1
  | _ => False

end Token

namespace Parse

inductive Phrase where
  | expression
  | unit
  | operand
  | bracketed

/-- The token sequences of each sort. Between brackets, a slice may leave out its last bound: the
sequence then ends with a colon, and a name after it makes it an expression. -/
inductive Derives : Phrase → List Token → Prop where
  | alone {w : List Token} : Derives .unit w → Derives .expression w
  | join {u w : List Token} {t : Token} : Derives .unit u → t.IsInfix → Derives .expression w →
      Derives .expression (u ++ t :: w)
  | bare {w : List Token} : Derives .operand w → Derives .unit w
  | signed {w : List Token} {t : Token} : t.IsPrefix → Derives .unit w → Derives .unit (t :: w)
  | atom {t : Token} : t.IsAtom → Derives .operand [t]
  | group {w : List Token} {t c : Token} : t.kind = .leftParen → Derives .expression w →
      c.kind = .rightParen → Derives .operand (t :: w ++ [c])
  | index {u w : List Token} {t c : Token} : Derives .operand u → t.kind = .leftBracket →
      Derives .bracketed w → c.kind = .rightBracket → Derives .operand (u ++ t :: w ++ [c])
  | place {w : List Token} : Derives .expression w → Derives .bracketed w
  | unbounded {w : List Token} {t name : Token} : t.kind = .slice → name.kind = .identifier →
      Derives .expression (w ++ [t, name]) → Derives .bracketed (w ++ [t])

namespace Derives

variable {u w : List Token} {t c : Token}

/-- The operators of an expression can be counted from the left as well. -/
theorem join_right (first : Derives .expression u) (op : t.IsInfix) (last : Derives .unit w) :
    Derives .expression (u ++ t :: w) := by
  generalize sort : Phrase.expression = p at first
  induction first with
  | alone unit => exact .join unit op (.alone last)
  | join unit op' _ _ ih =>
    rw [List.append_assoc, List.cons_append]
    exact .join unit op' (ih sort)
  | _ => cases sort

/-- Brackets after an expression belong to its last operand. -/
theorem brackets {p : Phrase} (h : Derives p u) (sort : p ≠ .bracketed)
    (opens : t.kind = .leftBracket) (inner : Derives .bracketed w)
    (closes : c.kind = .rightBracket) :
    Derives p (u ++ t :: w ++ [c]) := by
  induction h with
  | alone _ ih => exact .alone (ih (by simp))
  | join unit op _ _ ih =>
    have last := ih (by simp)
    simp only [List.append_assoc, List.cons_append] at last ⊢
    exact .join unit op last
  | bare _ ih => exact .bare (ih (by simp))
  | signed sign _ ih => exact .signed sign (ih (by simp))
  | atom h => exact .index (.atom h) opens inner closes
  | group open' h close' _ => exact .index (.group open' h close') opens inner closes
  | index h open' inner' close' _ _ =>
    exact .index (.index h open' inner' close') opens inner closes
  | place _ => exact absurd rfl sort
  | unbounded _ _ _ _ => exact absurd rfl sort

end Derives

/-- Expressions up to a last unit that is still to come. -/
def Awaits (w : List Token) : Prop := ∀ u, Derives .unit u → Derives .expression (w ++ u)

namespace Awaits

variable {w : List Token} {t : Token}

theorem nil : Awaits [] := fun _ unit => .alone unit

theorem signed (h : Awaits w) (sign : t.IsPrefix) : Awaits (w ++ [t]) := by
  intro u unit
  rw [List.append_assoc]
  exact h _ (.signed sign unit)

theorem join (h : Derives .expression w) (op : t.IsInfix) : Awaits (w ++ [t]) := by
  intro u unit
  rw [List.append_assoc]
  exact h.join_right op unit

theorem operand (h : Awaits w) {u : List Token} (last : Derives .operand u) :
    Derives .expression (w ++ u) :=
  h u (.bare last)

end Awaits
end Parse
end JsonQuery
