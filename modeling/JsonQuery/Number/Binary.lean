/-! The arithmetic of binary64 magnitudes, in exact natural numbers. A magnitude has a code, its
63 low bits, and every finite magnitude is a whole number of units of 2^-1074. Codes and units grow
together, so rounding is a matter of finding the code whose units are nearest. Places in a sequence
and remainders are computed from whole parts, which are cut off toward zero. -/
namespace JsonQuery.Number

/-- The number of magnitudes that share an exponent field. -/
def fractionCount : Nat := Nat.pow 2 52

/-- The code of infinity. Smaller codes are finite, and larger ones are no numbers. -/
def infinityCode : Nat := 2047 * fractionCount

def unitsPerOne : Nat := Nat.pow 2 1074

def units (code : Nat) : Nat :=
  let exponent := code / fractionCount
  let fraction := code % fractionCount
  if exponent = 0 then fraction else (fractionCount + fraction) * Nat.pow 2 (exponent - 1)

/-- A quotient rounded to the nearest whole number, and to the even one of two that are equally
near. -/
def roundHalfEven (num den : Nat) : Nat :=
  let quotient := num / den
  let twice := 2 * (num % den)
  if twice < den then quotient
  else if den < twice then quotient + 1
  else quotient + quotient % 2

/-- The code nearest to a quotient of units, and the even one of two that are equally near. Above
the largest finite magnitude it is the code of infinity. -/
def nearestCode (num den : Nat) : Nat :=
  let scale := (num / den).log2 - 52
  min (scale * fractionCount + roundHalfEven num (den * Nat.pow 2 scale)) infinityCode

def ofCode (negative : Bool) (code : Nat) : Float :=
  Float.ofBits (UInt64.ofNat (if negative then Nat.pow 2 63 + code else code))

def nan : Float := ofCode false (infinityCode + fractionCount / 2)

def isNegative (x : Float) : Bool := decide (Nat.pow 2 63 ≤ x.toBits.toNat)

def code (x : Float) : Nat := x.toBits.toNat % Nat.pow 2 63

def isNaN (x : Float) : Bool := decide (infinityCode < code x)

def isInfinite (x : Float) : Bool := code x == infinityCode

def isFinite (x : Float) : Bool := decide (code x < infinityCode)

def ofNat (n : Nat) : Float := ofCode false (nearestCode (n * unitsPerOne) 1)

def ofInt (n : Int) : Float :=
  ofCode (decide (n < 0)) (nearestCode (n.natAbs * unitsPerOne) 1)

def wholeMagnitude (x : Float) : Nat := units (code x) / unitsPerOne

/-- The whole part of a number. Infinities and numbers that are not numbers stay what they are, and
a zero keeps the sign. -/
def truncate (x : Float) : Float :=
  if isFinite x then ofCode (isNegative x) (nearestCode (wholeMagnitude x * unitsPerOne) 1) else x

def isWhole (x : Float) : Bool := isFinite x && units (code x) % unitsPerOne == 0

/-- The whole part as a 64-bit integer. It is cut off at the ends of the range, and what is not a
number counts as zero. -/
def toInt64 (x : Float) : Int :=
  if isNaN x then 0
  else if isNegative x then
    if isFinite x then max (-(wholeMagnitude x : Int)) (-Int.pow 2 63) else -Int.pow 2 63
  else if isFinite x then min (wholeMagnitude x : Int) (Int.pow 2 63 - 1) else Int.pow 2 63 - 1

/-- The remainder of whole parts, with the sign of the dividend. There is none by a divisor whose
whole part is zero. -/
def remainder? (x y : Float) : Option Float :=
  if isFinite y && wholeMagnitude y == 0 then none
  else if isNaN x || isNaN y || isInfinite x then some nan
  else if isInfinite y then some (truncate x)
  else
    some (ofCode (isNegative x)
      (nearestCode (wholeMagnitude x % wholeMagnitude y * unitsPerOne) 1))

end JsonQuery.Number
