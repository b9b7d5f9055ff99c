import JsonQuery.Number.Binary
import JsonQuery.Proofs.Number.Code
import JsonQuery.Proofs.Number.Nearest

/-! The integer part of a number: what stands before the point of its value, cut off at the ends of
the range of a 64-bit integer. -/
namespace JsonQuery.Number

variable {x : Float}

def value (x : Float) : ℚ :=
  (if isNegative x then -1 else 1) * ((units (code x) : ℚ) / unitsPerOne)

/-- A rational number without what stands after the point. -/
def towardZero (q : ℚ) : Int := if q < 0 then ⌈q⌉ else ⌊q⌋

/-- The integer in the range of a 64-bit integer that is nearest to an integer. -/
def saturate (i : Int) : Int := max (-2 ^ 63) (min (2 ^ 63 - 1) i)

/-- The integer part of a number. Infinities are beyond the ends of the range, and what is not a
number counts as zero. -/
def integerPart (x : Float) : Int :=
  if isNaN x then 0
  else if isInfinite x then if isNegative x then -2 ^ 63 else 2 ^ 63 - 1
  else saturate (towardZero (value x))

def InWord (i : Int) : Prop := -2 ^ 63 ≤ i ∧ i < 2 ^ 63

theorem inWord_saturate (i : Int) : InWord (saturate i) := by
  unfold InWord saturate
  omega

theorem inWord_integerPart (x : Float) : InWord (integerPart x) := by
  unfold integerPart
  split
  · unfold InWord
    omega
  · split
    · unfold InWord
      split <;> omega
    · exact inWord_saturate _

theorem towardZero_value (x : Float) :
    towardZero (value x) =
      if isNegative x then -(wholeMagnitude x : Int) else wholeMagnitude x := by
  have whole : ⌊(units (code x) : ℚ) / unitsPerOne⌋ = wholeMagnitude x :=
    Rat.floor_natCast_div_natCast _ _
  have magnitude : 0 ≤ (units (code x) : ℚ) / unitsPerOne := by positivity
  unfold towardZero value
  cases isNegative x with
  | false =>
    simp only [Bool.false_eq_true, if_false, one_mul, if_neg (not_lt.mpr magnitude), whole]
  | true =>
    simp only [if_true, neg_mul, one_mul]
    split
    · rw [Int.ceil_neg, whole]
    · rename_i zero
      have none : (units (code x) : ℚ) / unitsPerOne = 0 := by linarith
      rw [← whole, none]
      simp

theorem isFinite_of_number (number : isNaN x = false) :
    isFinite x = !isInfinite x := by
  have below : code x ≤ infinityCode := Nat.le_of_not_lt (of_decide_eq_false number)
  unfold isFinite isInfinite
  by_cases same : code x = infinityCode
  · simp [same]
  · simp [same, Nat.lt_of_le_of_ne below same]

/-- The conversion to a 64-bit integer gives the integer part. -/
theorem toInt64_eq_integerPart (x : Float) : toInt64 x = integerPart x := by
  unfold toInt64 integerPart
  have range : Int.pow 2 63 = 2 ^ 63 := rfl
  rw [range, towardZero_value]
  cases number : isNaN x with
  | true => rfl
  | false =>
    rw [isFinite_of_number number]
    unfold saturate
    cases isNegative x <;> cases isInfinite x <;> simp <;> omega

/-- A number with its first binary digit moved to where a fraction has an implicit one. -/
theorem shifted_bounds {n : Nat} (some : n ≠ 0) (fits : n.log2 ≤ 52) :
    fractionCount ≤ n * 2 ^ (52 - n.log2) ∧ n * 2 ^ (52 - n.log2) < 2 * fractionCount := by
  have first : 2 ^ n.log2 * 2 ^ (52 - n.log2) = fractionCount := by
    rw [← Nat.pow_add, Nat.add_sub_cancel' fits]
    rfl
  constructor
  · rw [← first]
    exact Nat.mul_le_mul_right _ (Nat.log2_self_le some)
  · rw [← first, ← Nat.mul_assoc, ← Nat.pow_succ']
    exact Nat.mul_lt_mul_of_pos_right Nat.lt_log2_self (Nat.two_pow_pos _)

theorem two_pow_mul_two_pow {e : Nat} (fits : e ≤ 52) :
    2 ^ (52 - e) * 2 ^ (e + 1022) = unitsPerOne := by
  have exponent : 52 - e + (e + 1022) = 1074 := by omega
  unfold unitsPerOne
  generalize 1074 = m at exponent ⊢
  rw [← Nat.pow_add, exponent]
  rfl

/-- Below `2 ^ 53` every natural number is a finite magnitude. -/
theorem exists_units {n : Nat} (small : n < 2 ^ 53) :
    ∃ c < infinityCode, units c = n * unitsPerOne := by
  rcases Nat.eq_zero_or_pos n with rfl | pos
  · exact ⟨0, by decide, (Nat.zero_mul _).symm⟩
  · have some : n ≠ 0 := Nat.ne_of_gt pos
    have fits : n.log2 ≤ 52 := Nat.le_of_lt_succ ((Nat.log2_lt some).mpr small)
    obtain ⟨low, high⟩ := shifted_bounds some fits
    have fraction : n * 2 ^ (52 - n.log2) - fractionCount < fractionCount := by omega
    refine ⟨(n.log2 + 1022 + 1) * fractionCount + (n * 2 ^ (52 - n.log2) - fractionCount), ?_, ?_⟩
    · have limit : infinityCode = 2047 * fractionCount := rfl
      have exponent : (n.log2 + 1022 + 1) * fractionCount ≤ 1075 * fractionCount :=
        Nat.mul_le_mul_right _ (by omega)
      omega
    · rw [units_of_normal _ fraction, Nat.add_sub_cancel' low, Nat.mul_assoc,
        two_pow_mul_two_pow fits]

/-- An integer of up to 53 bits is its own integer part. -/
theorem integerPart_ofInt {i : Int} (small : i.natAbs < 2 ^ 53) : integerPart (ofInt i) = i := by
  obtain ⟨c, finite, units⟩ := exists_units small
  have number : ofInt i = ofCode (decide (i < 0)) c := by
    rw [ofInt, ← units, nearestCode_units finite]
  have code := code_ofCode (decide (i < 0)) finite
  have magnitude : wholeMagnitude (ofInt i) = i.natAbs := by
    rw [wholeMagnitude, number, code, units, Nat.mul_div_cancel _ unitsPerOne_pos]
  have sign : isNegative (ofInt i) = decide (i < 0) := by rw [number, isNegative_ofCode _ finite]
  have some : isNaN (ofInt i) = false := by
    rw [number, isNaN, code]
    exact decide_eq_false (Nat.not_lt.mpr (Nat.le_of_lt finite))
  have bounded : isInfinite (ofInt i) = false := by
    rw [number, isInfinite, code]
    exact beq_false_of_ne (Nat.ne_of_lt finite)
  rw [integerPart, some, bounded, towardZero_value, magnitude, sign]
  simp only [Bool.false_eq_true, if_false, decide_eq_true_eq]
  unfold saturate
  split <;> omega

theorem integerPart_ofNat {n : Nat} (small : n < 2 ^ 53) : integerPart (ofNat n) = n := by
  have sign : decide ((n : Int) < 0) = false := decide_eq_false (by omega)
  have same : ofNat n = ofInt n := by rw [ofNat, ofInt, sign, Int.natAbs_natCast]
  rw [same, integerPart_ofInt (by simpa using small)]

end JsonQuery.Number
