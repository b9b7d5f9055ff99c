import JsonQuery.Proofs.Number.Positional
import JsonQuery.Proofs.Parse.Bounds
import Mathlib.Data.List.TakeWhile

/-! Natural numbers as operands: the decimal digits of a number are one token, which is read as the
number. -/
namespace JsonQuery

namespace Number

theorem ofLiteral?_digitsText (n : Nat) : ofLiteral? (digitsText n) = some (ofNat n) := by
  have plain (c : Char) (member : c ∈ digitsText n) : c ≠ '_' ∧ c ≠ '.' := by
    have digit := isDigit_of_mem_digitsText member
    constructor <;> rintro rfl <;> cases digit
  have kept : (digitsText n).filter (· != '_') = digitsText n :=
    List.filter_eq_self.mpr fun c member => bne_iff_ne.mpr (plain c member).1
  have whole : (digitsText n).takeWhile (· != '.') = digitsText n :=
    List.takeWhile_eq_self_iff.mpr fun c member => bne_iff_ne.mpr (plain c member).2
  have none : (digitsText n).dropWhile (· != '.') = [] :=
    List.dropWhile_eq_nil_iff.mpr fun c member => bne_iff_ne.mpr (plain c member).2
  have magnitude : Nat.ofDigitChars 10 (digitsText n) 0 = n := Nat.ofDigitChars_ten_toDigits
  have decimal : Decimal.ofText (digitsText n) [] 0 = ⟨n, 0⟩ := by
    rw [Decimal.ofText, List.append_nil, magnitude]
    rfl
  unfold ofLiteral?
  dsimp only
  rw [kept, none, whole, decimal, Decimal.toNumber, Decimal.nearest_eq]
  simp [ofNat]

end Number

namespace Parse

theorem toList_repr (n : Nat) : n.repr.toList = Number.digitsText n := String.toList_ofList

/-- Digits are one token. -/
theorem scans_repr (n : Nat) : Scans n.repr.toList [⟨.number, n.repr, ⟨0, 0⟩⟩] [] := by
  have digit (c : Char) (member : c ∈ Number.digitsText n) : c.isDigit = true :=
    Number.isDigit_of_mem_digitsText member
  have some : Number.digitsText n ≠ [] := Nat.toDigits_ne_nil
  obtain ⟨c, cs, parts⟩ := List.exists_cons_of_ne_nil some
  rw [parts] at digit
  have first : c.isDigit = true := digit c (.head _)
  have numeral (d : Char) (member : d ∈ cs) : Lexeme.isNumeral d = true := by
    rw [Lexeme.isNumeral, digit d (.tail _ member)]
    rfl
  have starts : Lexeme.startsNumber c cs = true := by
    rw [Lexeme.startsNumber, first]
    rfl
  have read : Lexeme.read c cs = .ok ⟨.number, c :: cs, c :: cs, []⟩ := by
    unfold Lexeme.read
    rw [if_pos starts, List.takeWhile_eq_self_iff.mpr numeral,
      List.dropWhile_eq_nil_iff.mpr numeral]
  have visible : Text.isBlank c = false := by
    cases blank : Text.isBlank c with
    | false => rfl
    | true =>
      have other := (delimits_of_blank blank []).2.1
      rw [Lexeme.isNumeral, first] at other
      cases other
  have token := Scans.lexeme visible read (.done [])
  have text : n.repr = String.ofList (c :: cs) := congrArg String.ofList parts
  rw [text, String.toList_ofList]
  exact token

/-- The digits of a natural number are an operand, and stand for the nearest number. -/
theorem operandText_repr (n : Nat) :
    OperandText n.repr (.literal (.number (Number.ofNat n)) ⟨0, 0⟩) := by
  have single : IsSingle n.repr .number n.repr := Scans.toList_iff.mp (scans_repr n)
  refine .number single ?_
  rw [toList_repr, Number.ofLiteral?_digitsText]

/-- An operand is a bound. -/
theorem OperandText.boundText {source : String} {x : Expr} (h : OperandText source x)
    (omitted : Float) : BoundText omitted source x := by
  rw [← tree_nil x]
  exact .chain (.operand h) fun op member => absurd member List.not_mem_nil

/-- An operand is a bound with a sign as well. -/
theorem OperandText.boundText_signed {source : String} {x : Expr} (h : OperandText source x)
    (sign : Sign) (omitted : Float) :
    BoundText omitted (sign.op.symbol ++ source) (sign.apply x) := by
  rw [← tree_nil x]
  exact .signed sign (.operand h) fun op member => absurd member List.not_mem_nil

end Parse
end JsonQuery
