import JsonQuery.Evaluation.Error
import JsonQuery.Number.Binary
import JsonQuery.Value.Basic

/-! What can be indexed: strings, as sequences of characters, and arrays. Places count from zero,
and negative ones from the end. A slice includes both of its bounds. -/
namespace JsonQuery

inductive Sequence where
  | characters (cs : List Char)
  | items (vs : List Value)

namespace Sequence

def ofValue? : Value → Option Sequence
  | .string s => some (.characters s.toList)
  | .array vs => some (.items vs)
  | _ => none

def toValue : Sequence → Value
  | characters cs => .string (String.ofList cs)
  | items vs => .array vs

def length : Sequence → Nat
  | characters cs => cs.length
  | items vs => vs.length

/-- The element at a place. The elements of a string are strings of one character. -/
def element? (place : Nat) : Sequence → Option Value
  | characters cs => cs[place]?.map fun c => .string (String.ofList [c])
  | items vs => vs[place]?

def extract (place count : Nat) : Sequence → Sequence
  | characters cs => characters ((cs.drop place).take count)
  | items vs => items ((vs.drop place).take count)

def place? (index : Float) (length : Nat) : Option Nat :=
  let place := Number.toInt64 index
  let place := if place < 0 then place + length else place
  if 0 ≤ place ∧ place < length then some place.toNat else none

/-- The place that a number stands for, or the failure that names it. -/
def place (index : Float) (length : Nat) : Except RuntimeError Nat :=
  match place? index length with
  | some n => .ok n
  | none => .error (.outOfRange index length)

def elementAt (s : Sequence) (index : Float) : Except RuntimeError Value :=
  match (place? index s.length).bind s.element? with
  | some v => .ok v
  | none => .error (.outOfRange index s.length)

def sliceAt (s : Sequence) (first last : Float) : Except RuntimeError Value := do
  let start ← place first s.length
  let stop ← place last s.length
  if stop < start then .error (.reversedBounds first last)
  else .ok (s.extract start (stop - start + 1)).toValue

end Sequence
end JsonQuery
