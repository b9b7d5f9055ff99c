import JsonQuery.Number.Binary
import JsonQuery.Proofs.Number.Code
import JsonQuery.Proofs.Number.Positional

/-! The interchange notation of a number and what it spells, and the integers that stand for whole
numbers. Both keep a number, except that an integer has no negative zero. -/
namespace JsonQuery.Number

variable {x : Float} {n : Numeral}

theorem eq_zero_of_units_eq_zero {c : Nat} (finite : c < infinityCode) (none : units c = 0) :
    c = 0 := by
  rw [← nearestCode_units finite, none]
  exact nearestCode_of_small Nat.one_pos

theorem units_of_isWhole (whole : isWhole x = true) :
    units (code x) = wholeMagnitude x * unitsPerOne := by
  simp only [isWhole, Bool.and_eq_true, beq_iff_eq] at whole
  exact (Nat.div_mul_cancel (Nat.dvd_of_mod_eq_zero whole.2)).symm

theorem isFinite_of_isWhole (whole : isWhole x = true) : isFinite x = true := by
  simp only [isWhole, Bool.and_eq_true] at whole
  exact whole.1

/-- Zeros are whole, and have no units. -/
theorem isWhole_of_zero (zero : code x = 0) : isWhole x = true ∧ wholeMagnitude x = 0 := by
  have finite : isFinite x = true := decide_eq_true (zero ▸ (by decide : 0 < infinityCode))
  have none : units (code x) = 0 := by
    rw [zero]
    rfl
  exact ⟨by simp [isWhole, finite, none], by rw [wholeMagnitude, none, Nat.zero_div]⟩

/-- Far from the ends of the range a whole number is its own integer. -/
theorem toInt64_eq (whole : isWhole x = true) (small : wholeMagnitude x < 2 ^ 63) :
    toInt64 x = if isNegative x then -(wholeMagnitude x : Int) else wholeMagnitude x := by
  have finite := isFinite_of_isWhole whole
  have number : isNaN x = false := decide_eq_false (Nat.not_lt_of_lt (of_decide_eq_true finite))
  have range : Int.pow 2 63 = 9223372036854775808 := rfl
  simp only [toInt64, number, finite, range, Bool.false_eq_true, if_false, if_true]
  split <;> omega

/-- A whole number is the number of its integer, without the sign of a zero. -/
theorem ofInt_toInt64 (whole : isWhole x = true) (small : wholeMagnitude x < 2 ^ 63) :
    ofInt (toInt64 x) = if code x = 0 then ofCode false 0 else x := by
  have finite : code x < infinityCode := of_decide_eq_true (isFinite_of_isWhole whole)
  have units := units_of_isWhole whole
  have magnitude : (toInt64 x).natAbs = wholeMagnitude x := by
    rw [toInt64_eq whole small]
    split <;> omega
  have code : nearestCode ((toInt64 x).natAbs * unitsPerOne) 1 = code x := by
    rw [magnitude, ← units, nearestCode_units finite]
  rw [ofInt, code]
  split
  · rename_i zero
    have none := (isWhole_of_zero zero).2
    have sign : decide (toInt64 x < 0) = false := decide_eq_false (by omega)
    rw [sign, zero]
  · rename_i some
    have nonzero : wholeMagnitude x ≠ 0 := by
      intro none
      rw [none, Nat.zero_mul] at units
      exact some (eq_zero_of_units_eq_zero finite units)
    have sign : decide (toInt64 x < 0) = isNegative x := by
      rw [toInt64_eq whole small]
      cases isNegative x with
      | false => simp
      | true =>
        simp only [if_true, decide_eq_true_eq]
        omega
    rw [sign, ofCode_code]

def exponentText (e : Int) : List Char :=
  'e' :: (if e < 0 then '-' else '+') :: digitsText e.natAbs

inductive Scales : List Char → Int → Prop where
  | one : Scales [] 0
  | marked (e : Int) : Scales (exponentText e) e

/-- A text spells a decimal of a certain value, with an exponent or without one. -/
structure SpellsScaled (cs : List Char) (q : ℚ) (whole fraction scale : List Char) (e : Int) :
    Prop where
  text : cs = pointed whole fraction ++ scale
  before : IsWhole whole
  after : ∀ c ∈ fraction, c.isDigit = true
  scales : Scales scale e
  value : (Decimal.ofText whole fraction e).value = q

theorem Spells.scaled {cs whole fraction : List Char} {q : ℚ} (h : Spells cs q whole fraction) :
    SpellsScaled cs q whole fraction [] 0 :=
  ⟨by rw [h.text, List.append_nil], h.before, h.after, .one, h.value⟩

theorem value_ofText_scaled (whole fraction : List Char) (e : Int) :
    (Decimal.ofText whole fraction e).value =
      Nat.ofDigitChars 10 (whole ++ fraction) 0 * 10 ^ (e - fraction.length) := rfl

/-- A fraction of zero can be added to a text without a fraction. -/
theorem Spells.append_zero {cs whole : List Char} {q : ℚ} (h : Spells cs q whole []) :
    Spells (cs ++ ['.', '0']) q whole ['0'] := by
  refine ⟨by rw [h.text]; rfl, h.before, fun c member => ?_, ?_⟩
  · rw [List.mem_singleton.mp member]
    rfl
  · have zeros := ofDigitChars_append_zeros whole 1
    rw [List.replicate_one] at zeros
    rw [← h.value, value_ofText, value_ofText, zeros, List.append_nil]
    push_cast
    simp
    ring

theorem spells_scientific (significant : n.Significant) : ∃ whole fraction,
    SpellsScaled n.scientific n.value whole fraction (exponentText (n.point - 1))
      (n.point - 1) := by
  obtain ⟨digits, first, rest, found, nonzero⟩ := significant
  rw [found] at digits
  have leading : IsWhole [first] :=
    isWhole_of_ne_zero (fun c member => digits c (by simp_all)) nonzero
  have places : n.point - 1 - (rest.length : Int) = n.point - n.digits.length := by
    rw [found, List.length_cons]
    omega
  refine ⟨[first], rest, ?_, leading, fun c member => digits c (.tail _ member), .marked _, ?_⟩
  · unfold Numeral.scientific exponentText
    rw [found]
    cases rest <;> rfl
  · rw [value_ofText_scaled, Numeral.value, places, found]
    rfl

theorem exists_spells_interchange (significant : n.Significant) :
    ∃ whole fraction scale e, SpellsScaled
      (if -5 < n.point ∧ n.point ≤ 16 then
        n.positional ++ if n.digits.length ≤ n.point then ['.', '0'] else []
      else n.scientific) n.value whole fraction scale e := by
  by_cases near : -5 < n.point ∧ n.point ≤ 16
  · rw [if_pos near]
    by_cases all : n.digits.length ≤ n.point
    · obtain ⟨first, rest, found, _⟩ := significant.2
      have large : ¬n.point ≤ 0 := by
        rw [found, List.length_cons] at all
        omega
      rw [if_pos all]
      exact ⟨_, _, _, _, (spells_of_large significant large all).append_zero.scaled⟩
    · obtain ⟨whole, fraction, spells⟩ := exists_spells_positional significant
      rw [if_neg all, List.append_nil]
      exact ⟨_, _, _, _, spells.scaled⟩
  · rw [if_neg near]
    obtain ⟨whole, fraction, spells⟩ := spells_scientific significant
    exact ⟨_, _, _, _, spells⟩

/-- The interchange notation of a finite number is a sign and the text of a decimal that rounds to
the number. -/
theorem exists_interchange (finite : isFinite x = true) :
    ∃ whole fraction scale e, interchange x = signText x ++ (pointed whole fraction ++ scale) ∧
      IsWhole whole ∧ (∀ c ∈ fraction, c.isDigit = true) ∧ Scales scale e ∧
      (Decimal.ofText whole fraction e).nearest = code x := by
  have below : code x < infinityCode := of_decide_eq_true finite
  unfold interchange
  split
  · rename_i zero
    refine ⟨['0'], ['0'], [], 0, rfl, isWhole_zero, fun c member => ?_, .one, zero.symm⟩
    rw [List.mem_singleton.mp member]
    rfl
  · rename_i some
    have digits := digits_shortest_pos .even below some
    obtain ⟨whole, fraction, scale, e, spells⟩ :=
      exists_spells_interchange (Decimal.significant_numeral (Nat.ne_of_gt digits))
    refine ⟨whole, fraction, scale, e, congrArg _ spells.text, spells.before, spells.after,
      spells.scales, ?_⟩
    rw [Decimal.nearest_congr (spells.value.trans (Decimal.value_numeral _)),
      nearest_shortest .even below]

end JsonQuery.Number
