import JsonQuery.Json.Basic
import JsonQuery.Number.Read

/-! Number texts of JSON: a sign, digits without a needless zero in front, a fraction and an
exponent. -/
namespace JsonQuery.Json

/-- The parts of a number text. A fraction or an exponent that is left out is empty. -/
structure Numeral where
  negative : Bool
  whole : List Char
  fraction : List Char
  exponent : Int

namespace Numeral

def digits? (cs : List Char) : Option (List Char × List Char) :=
  match cs.takeWhile Char.isDigit with
  | [] => none
  | digits => some (digits, cs.dropWhile Char.isDigit)

def whole? (cs : List Char) : Option (List Char × List Char) :=
  match digits? cs with
  | some ('0' :: _ :: _, _) => none
  | found => found

def fraction? : List Char → Option (List Char × List Char)
  | '.' :: rest => digits? rest
  | cs => some ([], cs)

/-- An exponent that ends the text, if there is one. -/
def exponent? : List Char → Option Int
  | [] => some 0
  | mark :: rest =>
    if mark == 'e' || mark == 'E' then
      let (negative, rest) := match rest with
        | '-' :: rest => (true, rest)
        | '+' :: rest => (false, rest)
        | rest => (false, rest)
      match digits? rest with
      | some (digits, []) =>
        let magnitude : Int := Nat.ofDigitChars 10 digits 0
        some (if negative then -magnitude else magnitude)
      | _ => none
    else none

def ofText? (cs : List Char) : Option Numeral := do
  let (negative, rest) := match cs with
    | '-' :: rest => (true, rest)
    | rest => (false, rest)
  let (whole, rest) ← whole? rest
  let (fraction, rest) ← fraction? rest
  let exponent ← exponent? rest
  return ⟨negative, whole, fraction, exponent⟩

/-- The number nearest to a numeral, correctly rounded. A reader that trades this for speed may be
off in the last place on a numeral of many digits. -/
def number (n : Numeral) : Float :=
  (Number.Decimal.ofText n.whole n.fraction n.exponent).toNumber n.negative

/-- The integer that a text without a point and an exponent spells. Negative zero is none. -/
def integer? (n : Numeral) : Option Int :=
  let magnitude := Nat.ofDigitChars 10 n.whole 0
  if n.fraction.isEmpty ∧ n.exponent = 0 ∧ ¬(n.negative ∧ magnitude = 0) then
    some (if n.negative then -magnitude else magnitude)
  else none

end Numeral

/-- The document of a number text. A number that is too large for any binary64 number has none. -/
def ofNumberText? (cs : List Char) : Option Json := do
  let numeral ← Numeral.ofText? cs
  if Number.isFinite numeral.number then
    match numeral.integer? with
    | some n => return .integer n
    | none => return .real numeral.number
  else none

end JsonQuery.Json
