import JsonQuery.Number.Read

/-! The shortest decimal that reads back as a given magnitude. For each number of digits the
magnitude lies between two neighbours on a decimal grid, and the first grid with a neighbour that
reads back wins. If both read back, the nearer one is taken. -/
namespace JsonQuery.Number

inductive Tie where
  | away
  | even
deriving DecidableEq

/-- A quotient and the remainder, of a magnitude by a grid step of `10 ^ power`. -/
structure GridCell where
  below : Nat
  remainder : Nat
  step : Nat

def gridCell (num den : Nat) (power : Int) : GridCell :=
  match power with
  | .ofNat n => ⟨num / (den * Nat.pow 10 n), num % (den * Nat.pow 10 n), den * Nat.pow 10 n⟩
  | .negSucc n => ⟨num * Nat.pow 10 (n + 1) / den, num * Nat.pow 10 (n + 1) % den, den⟩

/-- The ends of a cell, the preferred one first. -/
def GridCell.candidates (cell : GridCell) (tie : Tie) : List Nat :=
  let up := [cell.below + 1, cell.below]
  let down := [cell.below, cell.below + 1]
  if 2 * cell.remainder < cell.step then down
  else if cell.step < 2 * cell.remainder then up
  else match tie with
    | .away => up
    | .even => if cell.below % 2 = 0 then down else up

/-- The greatest power of ten that is not above `num / den`. -/
def decimalExponent (num den : Nat) : Int :=
  if den ≤ num then (digitsText (num / den)).length - 1
  else
    let places := (digitsText (den / num)).length
    if den ≤ num * Nat.pow 10 (places - 1) then -(places - 1 : Nat) else -(places : Nat)

/-- A decimal of a given number of digits that reads back as the code. -/
def shortestOf? (tie : Tie) (code : Nat) (exponent : Int) (count : Nat) : Option Decimal :=
  let power := exponent - count + 1
  ((gridCell (units code) unitsPerOne power).candidates tie).findSome? fun digits =>
    let d : Decimal := ⟨digits, power⟩
    if d.nearest = code then some d else none

/-- All digits of a magnitude. The units are powers of two, so they have a finite decimal form. -/
def exactDecimal (code : Nat) : Decimal := ⟨units code * Nat.pow 5 1074, -1074⟩

/-- The shortest decimal that reads back as the code of a finite magnitude, and the nearest one of
that length. Seventeen digits are always enough. -/
def shortest (tie : Tie) (code : Nat) : Decimal :=
  let exponent := decimalExponent (units code) unitsPerOne
  (((List.range 17).map (· + 1)).findSome? (shortestOf? tie code exponent)).getD
    (exactDecimal code)

end JsonQuery.Number
