import JsonQuery.Number.Binary

/-! Decimal numerals, the binary64 numbers nearest to them, and the texts that spell them. Exponents
of any size are read, and only those that can matter are ever raised. A literal of an expression has
at most one point, and underscores anywhere. Free text has a sign, an exponent or the name of a
number that is not finite. -/
namespace JsonQuery.Number

/-- The number `digits * 10 ^ exponent`. -/
structure Decimal where
  digits : Nat
  exponent : Int

/-- The decimal digits of a natural number, without leading zeros. -/
def digitsText (n : Nat) : List Char := Nat.toDigits 10 n

namespace Decimal

/-- The numeral with given digits before and after the point, shifted by a power of ten. -/
def ofText (whole fraction : List Char) (exponent : Int) : Decimal :=
  ⟨Nat.ofDigitChars 10 (whole ++ fraction) 0, exponent - fraction.length⟩

/-- The code of the magnitude nearest to a decimal. From 10^310 on this is infinity. A number
below 2^-1076, which three binary digits for each decimal place bound from above, is zero. -/
def nearest (d : Decimal) : Nat :=
  if d.digits = 0 then 0
  else match d.exponent with
    | .ofNat n =>
      if 309 < n then infinityCode else nearestCode (d.digits * Nat.pow 10 n * unitsPerOne) 1
    | .negSucc n =>
      if d.digits.log2 + 1077 < 3 * (n + 1) then 0
      else nearestCode (d.digits * unitsPerOne) (Nat.pow 10 (n + 1))

/-- The number nearest to a decimal with a sign. A zero keeps the sign. -/
def toNumber (d : Decimal) (negative : Bool) : Float := ofCode negative d.nearest

end Decimal

/-- The number that a literal spells, which is infinite when it is too large. There is none when a
second point follows. -/
def ofLiteral? (text : List Char) : Option Float :=
  let text := text.filter (· != '_')
  let whole := text.takeWhile (· != '.')
  match text.dropWhile (· != '.') with
  | [] => some ((Decimal.ofText whole [] 0).toNumber false)
  | _ :: fraction =>
    if fraction.contains '.' then none
    else some ((Decimal.ofText whole fraction 0).toNumber false)

def sign : List Char → Bool × List Char
  | '-' :: rest => (true, rest)
  | '+' :: rest => (false, rest)
  | cs => (false, cs)

def integer? (cs : List Char) : Option Int :=
  let (negative, digits) := sign cs
  if digits.isEmpty || !digits.all Char.isDigit then none
  else
    let magnitude := Nat.ofDigitChars 10 digits 0
    some (if negative then -magnitude else magnitude)

/-- The decimal that a text without a sign spells. There has to be a digit on some side of the
point. -/
def decimal? (cs : List Char) : Option Decimal :=
  let whole := cs.takeWhile Char.isDigit
  let rest := cs.dropWhile Char.isDigit
  let (fraction, rest) := match rest with
    | '.' :: rest => (rest.takeWhile Char.isDigit, rest.dropWhile Char.isDigit)
    | _ => ([], rest)
  if whole.isEmpty && fraction.isEmpty then none
  else match rest with
    | [] => some (.ofText whole fraction 0)
    | mark :: exponent =>
      if mark == 'e' || mark == 'E' then (integer? exponent).map (.ofText whole fraction)
      else none

def ofText? (cs : List Char) : Option Float :=
  let (negative, rest) := sign cs
  let word := String.ofList (rest.map Char.toLower)
  if word = "nan" then some nan
  else if word = "inf" ∨ word = "infinity" then some (ofCode negative infinityCode)
  else (decimal? rest).map (·.toNumber negative)

end JsonQuery.Number
