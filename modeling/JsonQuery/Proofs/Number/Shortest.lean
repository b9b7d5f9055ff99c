import JsonQuery.Number.Shortest
import JsonQuery.Proofs.Number.Nearest

/-! The shortest decimal of a magnitude reads back. A candidate is only taken when it does, and all
the digits of a magnitude always do. -/
namespace JsonQuery.Number

variable {tie : Tie} {code count : Nat} {exponent : Int} {d : Decimal}

theorem nearest_of_shortestOf? (h : shortestOf? tie code exponent count = some d) :
    d.nearest = code := by
  obtain ⟨digits, _, found⟩ := List.exists_of_findSome?_eq_some h
  dsimp only at found
  split at found
  · rename_i reads
    cases found
    exact reads
  · cases found

/-- The units of one have a finite decimal form. -/
theorem pow_five_mul_unitsPerOne : Nat.pow 5 1074 * unitsPerOne = 10 ^ 1074 := by
  unfold unitsPerOne
  generalize 1074 = n
  exact (Nat.mul_pow 5 2 n).symm

theorem nearest_exactDecimal (finite : code < infinityCode) :
    (exactDecimal code).nearest = code := by
  have pos (n : Nat) : 0 < 10 ^ n := Nat.pow_pos (by decide)
  have whole : (exactDecimal code).exponent.toNat = 0 := rfl
  have places : (-(exactDecimal code).exponent).toNat = 1074 := rfl
  rw [Decimal.nearest_eq, whole, places, Nat.pow_zero, Nat.mul_one]
  calc nearestCode (units code * Nat.pow 5 1074 * unitsPerOne) (10 ^ 1074) =
        nearestCode (units code) 1 := by
          apply nearestCode_congr (pos _) Nat.one_pos
          rw [Nat.mul_one, Nat.mul_assoc, pow_five_mul_unitsPerOne]
    _ = code := nearestCode_units finite

theorem nearest_shortest (tie : Tie) (finite : code < infinityCode) :
    (shortest tie code).nearest = code := by
  unfold shortest
  dsimp only
  cases found : ((List.range 17).map (· + 1)).findSome?
      (shortestOf? tie code (decimalExponent (units code) unitsPerOne)) with
  | none => exact nearest_exactDecimal finite
  | some d =>
    obtain ⟨count, _, taken⟩ := List.exists_of_findSome?_eq_some found
    exact nearest_of_shortestOf? taken

/-- The decimal of a magnitude other than zero has digits. -/
theorem digits_shortest_pos (tie : Tie) (finite : code < infinityCode) (some : code ≠ 0) :
    0 < (shortest tie code).digits := by
  have reads := nearest_shortest tie finite
  apply Nat.pos_of_ne_zero
  intro zero
  rw [Decimal.nearest, if_pos zero] at reads
  exact some reads.symm

end JsonQuery.Number
