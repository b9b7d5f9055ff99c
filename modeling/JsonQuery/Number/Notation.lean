import JsonQuery.Number.Shortest

/-! How numbers are written. The plain notation spells out every place. The interchange notation
marks fractions as such and uses an exponent outside a range of sizes. -/
namespace JsonQuery.Number

/-- Significant digits, and the place of the decimal point counted from the first of them. -/
structure Numeral where
  digits : List Char
  point : Int

/-- The numeral of a decimal, without zeros at its end. -/
def Decimal.numeral (d : Decimal) : Numeral :=
  let digits := digitsText d.digits
  ⟨(digits.reverse.dropWhile (· == '0')).reverse, digits.length + d.exponent⟩

namespace Numeral

def zeros (n : Int) : List Char := List.replicate n.toNat '0'

/-- All places from the ones, or the first significant digit, down to the last significant digit or
the ones. -/
def positional (n : Numeral) : List Char :=
  if n.point ≤ 0 then '0' :: '.' :: zeros (-n.point) ++ n.digits
  else if n.digits.length ≤ n.point then n.digits ++ zeros (n.point - n.digits.length)
  else n.digits.take n.point.toNat ++ '.' :: n.digits.drop n.point.toNat

/-- One digit before the point, and an exponent that always has a sign. -/
def scientific (n : Numeral) : List Char :=
  let exponent := n.point - 1
  let fraction := match n.digits.drop 1 with
    | [] => []
    | ds => '.' :: ds
  n.digits.take 1 ++ fraction ++ 'e' :: (if exponent < 0 then '-' else '+') ::
    digitsText exponent.natAbs

end Numeral

def signText (x : Float) : List Char := if isNegative x then ['-'] else []

/-- The plain notation of a finite number. Zero keeps its sign, and of two shortest decimals that
are equally near the larger is taken. -/
def plain (x : Float) : List Char :=
  signText x ++ if code x = 0 then ['0'] else (shortest .away (code x)).numeral.positional

/-- The text of a number in messages, where a number that is not finite has a name. -/
def display (x : Float) : String :=
  if isNaN x then "NaN"
  else if isInfinite x then if isNegative x then "-inf" else "inf"
  else String.ofList (plain x)

/-- The interchange notation of a finite number. From 10^-5 up to 10^16 it is positional, and a
whole number gets a fraction of zero. -/
def interchange (x : Float) : List Char :=
  signText x ++
    if code x = 0 then ['0', '.', '0']
    else
      let n := (shortest .even (code x)).numeral
      if -5 < n.point ∧ n.point ≤ 16 then
        n.positional ++ if n.digits.length ≤ n.point then ['.', '0'] else []
      else n.scientific

end JsonQuery.Number
