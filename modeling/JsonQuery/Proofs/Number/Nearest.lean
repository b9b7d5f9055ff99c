import JsonQuery.Number.Read
import Mathlib.Algebra.Order.Field.Basic
import Mathlib.Data.Rat.Defs
import Mathlib.Tactic.FieldSimp
import Mathlib.Tactic.Ring

/-! Rounding to the nearest code. What a decimal rounds to depends on its rational value alone,
however the digits and the exponent share it, and every finite magnitude rounds to itself. -/
namespace JsonQuery.Number

theorem two_pow_mul_unitsPerOne (n : Nat) : 2 ^ n * unitsPerOne = 2 ^ (n + 1074) := by
  unfold unitsPerOne
  generalize 1074 = m
  exact (Nat.pow_add 2 n m).symm

theorem unitsPerOne_pos : 0 < unitsPerOne := by
  unfold unitsPerOne
  generalize 1074 = m
  exact Nat.two_pow_pos m

theorem roundHalfEven_scale {k : Nat} (pos : 0 < k) (num den : Nat) :
    roundHalfEven (num * k) (den * k) = roundHalfEven num den := by
  have less (a b : Nat) : a * k < b * k ↔ a < b := Nat.mul_lt_mul_right pos
  simp only [roundHalfEven, Nat.mul_div_mul_right _ _ pos, Nat.mul_mod_mul_right, ← Nat.mul_assoc,
    less]

theorem nearestCode_scale {k : Nat} (pos : 0 < k) (num den : Nat) :
    nearestCode (num * k) (den * k) = nearestCode num den := by
  have moved (n : Nat) : den * k * n = den * n * k := Nat.mul_right_comm _ _ _
  simp only [nearestCode, Nat.mul_div_mul_right _ _ pos, moved, roundHalfEven_scale pos]

/-- Equal quotients have the same nearest code. -/
theorem nearestCode_congr {a b c d : Nat} (hb : 0 < b) (hd : 0 < d) (same : a * d = c * b) :
    nearestCode a b = nearestCode c d := by
  rw [← nearestCode_scale hd a b, same, Nat.mul_comm b d, nearestCode_scale hb]

theorem roundHalfEven_mul {m den : Nat} (pos : 0 < den) : roundHalfEven (m * den) den = m := by
  simp [roundHalfEven, pos]

/-- Half a unit and less is nothing. -/
theorem nearestCode_of_small {num den : Nat} (small : 2 * num < den) : nearestCode num den = 0 := by
  have quotient : num / den = 0 := Nat.div_eq_of_lt (by omega)
  have remainder : num % den = num := Nat.mod_eq_of_lt (by omega)
  simp [nearestCode, roundHalfEven, quotient, remainder, small]

/-- From `2 ^ 1025` on everything is infinite. -/
theorem nearestCode_of_large {num exponent : Nat} (large : 2 ^ exponent ≤ num)
    (beyond : 2099 ≤ exponent) : nearestCode num 1 = infinityCode := by
  have some : num ≠ 0 := Nat.ne_of_gt (Nat.lt_of_lt_of_le (Nat.two_pow_pos _) large)
  have log : exponent ≤ num.log2 := (Nat.le_log2 some).mpr large
  have scale : 2047 * fractionCount ≤ (num.log2 - 52) * fractionCount :=
    Nat.mul_le_mul_right _ (by omega)
  rw [nearestCode, Nat.div_one]
  apply Nat.min_eq_right
  exact Nat.le_trans scale (Nat.le_add_right _ _)

theorem units_of_subnormal {code : Nat} (small : code < fractionCount) : units code = code := by
  simp [units, Nat.div_eq_of_lt small, Nat.mod_eq_of_lt small]

theorem units_of_normal (exponent : Nat) {fraction : Nat} (small : fraction < fractionCount) :
    units ((exponent + 1) * fractionCount + fraction) =
      (fractionCount + fraction) * 2 ^ exponent := by
  have pos : 0 < fractionCount := by decide
  have quotient : ((exponent + 1) * fractionCount + fraction) / fractionCount = exponent + 1 := by
    rw [Nat.mul_comm, Nat.mul_add_div pos, Nat.div_eq_of_lt small, Nat.add_zero]
  have remainder : ((exponent + 1) * fractionCount + fraction) % fractionCount = fraction := by
    rw [Nat.mul_comm, Nat.mul_add_mod, Nat.mod_eq_of_lt small]
  simp [units, quotient, remainder]

/-- A finite magnitude is nearest to itself. -/
theorem nearestCode_units {code : Nat} (finite : code < infinityCode) :
    nearestCode (units code) 1 = code := by
  have places : fractionCount = 2 ^ 52 := rfl
  have pos : 0 < fractionCount := by decide
  by_cases small : code < fractionCount
  · have log : code.log2 - 52 = 0 := by
      rcases Nat.eq_zero_or_pos code with rfl | some
      · rfl
      · have below : code.log2 < 52 := (Nat.log2_lt (Nat.ne_of_gt some)).mpr (places ▸ small)
        omega
    have rounded : roundHalfEven code 1 = code := by
      simpa using roundHalfEven_mul (m := code) Nat.one_pos
    rw [units_of_subnormal small, nearestCode, Nat.div_one, log]
    simpa [rounded] using Nat.le_of_lt finite
  · obtain ⟨exponent, fraction, less, rfl⟩ : ∃ exponent fraction, fraction < fractionCount ∧
        code = (exponent + 1) * fractionCount + fraction := by
      refine ⟨code / fractionCount - 1, code % fractionCount, Nat.mod_lt _ pos, ?_⟩
      have one : 0 < code / fractionCount := Nat.div_pos (Nat.not_lt.mp small) pos
      rw [Nat.sub_add_cancel one, Nat.mul_comm, Nat.div_add_mod]
    have log : ((fractionCount + fraction) * 2 ^ exponent).log2 - 52 = exponent := by
      have some : (fractionCount + fraction) * 2 ^ exponent ≠ 0 :=
        Nat.mul_ne_zero (by omega) (Nat.ne_of_gt (Nat.two_pow_pos _))
      have exact : ((fractionCount + fraction) * 2 ^ exponent).log2 = 52 + exponent := by
        rw [Nat.log2_eq_iff some, Nat.pow_succ, Nat.pow_add, ← places]
        refine ⟨Nat.mul_le_mul_right _ (Nat.le_add_right _ _), ?_⟩
        rw [Nat.mul_right_comm]
        exact Nat.mul_lt_mul_of_pos_right (by omega) (Nat.two_pow_pos _)
      omega
    rw [units_of_normal exponent less, nearestCode, Nat.div_one, log, Nat.one_mul]
    rw [show Nat.pow 2 exponent = 2 ^ exponent from rfl, roundHalfEven_mul (Nat.two_pow_pos _)]
    rw [Nat.min_eq_left (Nat.le_of_lt (by rw [Nat.succ_mul] at finite; omega)), Nat.succ_mul]
    omega

namespace Decimal

def value (d : Decimal) : ℚ := d.digits * 10 ^ d.exponent

theorem two_pow_le_ten_pow (n : Nat) : 2 ^ (205 * n) ≤ 10 ^ (62 * n) := by
  have part : 2 ^ 205 ≤ 10 ^ 62 := by decide
  rw [Nat.pow_mul, Nat.pow_mul]
  exact Nat.pow_le_pow_left part n

/-- The shortcuts for decimals of extreme size are right. -/
theorem nearest_eq (d : Decimal) :
    d.nearest = nearestCode (d.digits * 10 ^ d.exponent.toNat * unitsPerOne)
      (10 ^ (-d.exponent).toNat) := by
  obtain ⟨digits, exponent⟩ := d
  unfold nearest
  dsimp only
  split
  · rename_i zero
    subst zero
    have nothing : 2 * 0 < 10 ^ (-exponent).toNat := Nat.pow_pos (by decide)
    rw [Nat.zero_mul, Nat.zero_mul, nearestCode_of_small nothing]
  · rename_i some
    cases exponent with
    | ofNat n =>
      have whole : 10 ^ (-(Int.ofNat n)).toNat = 1 := by simp
      rw [whole]
      dsimp only
      split
      · rename_i long
        have bound : 2 ^ (205 * (n / 62)) ≤ digits * Nat.pow 10 n :=
          calc 2 ^ (205 * (n / 62)) ≤ 10 ^ (62 * (n / 62)) := two_pow_le_ten_pow _
            _ ≤ Nat.pow 10 n := Nat.pow_le_pow_right (by decide) (Nat.mul_div_le n 62)
            _ ≤ digits * Nat.pow 10 n := Nat.le_mul_of_pos_left _ (Nat.pos_of_ne_zero some)
        have large := Nat.mul_le_mul_right unitsPerOne bound
        rw [two_pow_mul_unitsPerOne] at large
        exact (nearestCode_of_large large (by omega)).symm
      · rfl
    | negSucc n =>
      have places : (-Int.negSucc n).toNat = n + 1 := rfl
      rw [places, Int.toNat_negSucc, Nat.pow_zero, Nat.mul_one]
      dsimp only
      split
      · rename_i tiny
        apply (nearestCode_of_small _).symm
        have less : digits < 2 ^ (digits.log2 + 1) := Nat.lt_log2_self
        calc 2 * (digits * unitsPerOne) < 2 * (2 ^ (digits.log2 + 1) * unitsPerOne) :=
              Nat.mul_lt_mul_of_pos_left (Nat.mul_lt_mul_of_pos_right less unitsPerOne_pos)
                (by decide)
          _ = 2 ^ (digits.log2 + 1076) := by rw [two_pow_mul_unitsPerOne, ← Nat.pow_succ']
          _ ≤ 2 ^ (3 * (n + 1)) := Nat.pow_le_pow_right (by decide) (by omega)
          _ = 8 ^ (n + 1) := by rw [Nat.pow_mul]
          _ ≤ 10 ^ (n + 1) := Nat.pow_le_pow_left (by decide) _
      · rfl

theorem value_eq_div (d : Decimal) :
    d.value = (d.digits * 10 ^ d.exponent.toNat : ℕ) / (10 ^ (-d.exponent).toNat : ℕ) := by
  obtain ⟨digits, exponent⟩ := d
  cases exponent with
  | ofNat n => simp [value]
  | negSucc n => simp [value, div_eq_mul_inv]

/-- Decimals of one value round alike. -/
theorem nearest_congr {d d' : Decimal} (same : d.value = d'.value) : d.nearest = d'.nearest := by
  have pos (n : Nat) : 0 < 10 ^ n := Nat.pow_pos (by decide)
  have nonzero (n : Nat) : ((10 ^ n : ℕ) : ℚ) ≠ 0 := by exact_mod_cast Nat.ne_of_gt (pos n)
  rw [value_eq_div, value_eq_div, div_eq_div_iff (nonzero _) (nonzero _)] at same
  have whole : d.digits * 10 ^ d.exponent.toNat * 10 ^ (-d'.exponent).toNat =
      d'.digits * 10 ^ d'.exponent.toNat * 10 ^ (-d.exponent).toNat := by exact_mod_cast same
  rw [nearest_eq, nearest_eq]
  apply nearestCode_congr (pos _) (pos _)
  rw [Nat.mul_right_comm, whole, Nat.mul_right_comm]

end Decimal
end JsonQuery.Number
