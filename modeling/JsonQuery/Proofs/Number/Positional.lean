import JsonQuery.Number.Notation
import JsonQuery.Proofs.Number.Shortest
import Mathlib.Algebra.Field.Rat

/-! The plain notation of a number and what it spells: digits without a needless zero in front, a
fraction where there is one, and a decimal that rounds to the number. -/
namespace JsonQuery.Number

variable {cs : List Char} {d : Decimal} {n : Numeral}

theorem digitChar_ne_zero : ∀ n < 10, n ≠ 0 → n.digitChar ≠ '0' := by decide

/-- No zero comes first in the digits of a number other than zero. -/
theorem exists_digitsText {n : Nat} (some : n ≠ 0) :
    ∃ first rest, digitsText n = first :: rest ∧ first ≠ '0' := by
  induction n using Nat.strongRecOn with
  | ind n ih =>
    by_cases small : n < 10
    · exact ⟨_, [], Nat.toDigits_of_lt_base small, digitChar_ne_zero n small some⟩
    · have ten : 10 ≤ n := Nat.not_lt.mp small
      obtain ⟨first, rest, found, nonzero⟩ := ih (n / 10) (by omega) (by omega)
      refine ⟨first, rest ++ [(n % 10).digitChar], ?_, nonzero⟩
      rw [digitsText, Nat.toDigits_of_base_le (by decide) ten, ← digitsText, found]
      rfl

theorem isDigit_of_mem_digitsText {n : Nat} {c : Char} (member : c ∈ digitsText n) :
    c.isDigit = true :=
  Nat.isDigit_of_mem_toDigits (by decide) (by decide) member

/-- The zeros at the end of a text are the text without the rest. -/
theorem exists_zeros (cs : List Char) : ∃ count, cs =
    (cs.reverse.dropWhile (· == '0')).reverse ++ List.replicate count '0' := by
  let zeros := cs.reverse.takeWhile (· == '0')
  have all : ∀ c ∈ zeros.reverse, c = '0' := by
    intro c member
    exact eq_of_beq (List.all_eq_true.mp List.all_takeWhile c (List.mem_reverse.mp member))
  have parts : cs = (cs.reverse.dropWhile (· == '0')).reverse ++ zeros.reverse := by
    rw [← List.reverse_append, List.takeWhile_append_dropWhile, List.reverse_reverse]
  exact ⟨_, parts.trans (congrArg _ (List.eq_replicate_of_mem all))⟩

/-- Zeros in front of digits change nothing, and each zero after them is a factor of ten. -/
theorem ofDigitChars_zeros (count : Nat) (cs : List Char) :
    Nat.ofDigitChars 10 (List.replicate count '0' ++ cs) 0 = Nat.ofDigitChars 10 cs 0 := by
  rw [Nat.ofDigitChars_append, Nat.ofDigitChars_replicate_zero, Nat.mul_zero]

theorem ofDigitChars_append_zeros (cs : List Char) (count : Nat) :
    Nat.ofDigitChars 10 (cs ++ List.replicate count '0') 0 =
      10 ^ count * Nat.ofDigitChars 10 cs 0 := by
  rw [Nat.ofDigitChars_append, Nat.ofDigitChars_replicate_zero]

namespace Numeral

def value (n : Numeral) : ℚ :=
  Nat.ofDigitChars 10 n.digits 0 * 10 ^ (n.point - n.digits.length)

def Significant (n : Numeral) : Prop :=
  (∀ c ∈ n.digits, c.isDigit = true) ∧ ∃ first rest, n.digits = first :: rest ∧ first ≠ '0'

end Numeral

theorem Decimal.significant_numeral (some : d.digits ≠ 0) : d.numeral.Significant := by
  obtain ⟨first, rest, found, nonzero⟩ := exists_digitsText some
  obtain ⟨count, parts⟩ := exists_zeros (digitsText d.digits)
  refine ⟨fun c member => ?_, ?_⟩
  · apply isDigit_of_mem_digitsText (n := d.digits)
    rw [parts]
    exact List.mem_append_left _ member
  · cases digits : d.numeral.digits with
    | nil =>
      have all : first :: rest = List.replicate count '0' := by
        rw [← found, parts]
        change d.numeral.digits ++ _ = _
        rw [digits, List.nil_append]
      exact absurd (List.eq_of_mem_replicate (all ▸ List.mem_cons_self)) nonzero
    | cons c others =>
      have same : first :: rest = c :: others ++ List.replicate count '0' := by
        rw [← found, ← digits]
        exact parts
      exact ⟨c, others, rfl, (List.cons.inj same).1 ▸ nonzero⟩

/-- Leaving out zeros at the end does not change the number. -/
theorem Decimal.value_numeral (d : Decimal) : d.numeral.value = d.value := by
  obtain ⟨count, parts⟩ := exists_zeros (digitsText d.digits)
  change digitsText d.digits = d.numeral.digits ++ _ at parts
  have digits : d.digits = 10 ^ count * Nat.ofDigitChars 10 d.numeral.digits 0 := by
    rw [← ofDigitChars_append_zeros, ← parts, digitsText, Nat.ofDigitChars_ten_toDigits]
  have length : ((digitsText d.digits).length : Int) = d.numeral.digits.length + count := by
    conv_lhs => rw [parts]
    simp
  have point : d.numeral.point - d.numeral.digits.length = count + d.exponent := by
    change (digitsText d.digits).length + d.exponent - _ = _
    omega
  rw [Numeral.value, Decimal.value, point, zpow_add₀ (by decide), zpow_natCast]
  conv_rhs => rw [digits]
  push_cast
  ring

/-- Digits before a point and after it. The point is left out when nothing follows. -/
def pointed (whole fraction : List Char) : List Char :=
  match fraction with
  | [] => whole
  | _ => whole ++ '.' :: fraction

/-- Digits as they stand before a point. Only zero itself begins with a zero. -/
def IsWhole (cs : List Char) : Prop :=
  (∀ c ∈ cs, c.isDigit = true) ∧ cs ≠ [] ∧ ∀ c rest, cs ≠ '0' :: c :: rest

theorem isWhole_zero : IsWhole ['0'] := by
  refine ⟨fun c member => ?_, List.cons_ne_nil _ _, nofun⟩
  rw [List.mem_singleton.mp member]
  rfl

theorem isWhole_of_ne_zero {first : Char} {rest : List Char}
    (digits : ∀ c ∈ first :: rest, c.isDigit = true) (nonzero : first ≠ '0') :
    IsWhole (first :: rest) :=
  ⟨digits, List.cons_ne_nil _ _, fun _ _ same => nonzero (List.cons.inj same).1⟩

/-- A text spells a decimal of a certain value in plain notation. -/
structure Spells (cs : List Char) (q : ℚ) (whole fraction : List Char) : Prop where
  text : cs = pointed whole fraction
  before : IsWhole whole
  after : ∀ c ∈ fraction, c.isDigit = true
  value : (Decimal.ofText whole fraction 0).value = q

theorem isDigit_zeros {n : Int} {c : Char} (member : c ∈ Numeral.zeros n) : c.isDigit = true := by
  rw [List.eq_of_mem_replicate member]
  rfl

theorem value_ofText (whole fraction : List Char) : (Decimal.ofText whole fraction 0).value =
    Nat.ofDigitChars 10 (whole ++ fraction) 0 * 10 ^ (-(fraction.length : Int)) := by
  simp [Decimal.value, Decimal.ofText]

/-- The first digit stands after the point. -/
theorem spells_of_small (significant : n.Significant) (small : n.point ≤ 0) :
    Spells n.positional n.value ['0'] (Numeral.zeros (-n.point) ++ n.digits) := by
  obtain ⟨digits, first, rest, found, _⟩ := significant
  have count : ((-n.point).toNat : Int) = -n.point := Int.toNat_of_nonneg (by omega)
  refine ⟨?_, isWhole_zero, ?_, ?_⟩
  · rw [Numeral.positional, if_pos small, found]
    cases Numeral.zeros (-n.point) <;> rfl
  · intro c member
    rcases List.mem_append.mp member with zero | digit
    · exact isDigit_zeros zero
    · exact digits c digit
  · have zeros : Nat.ofDigitChars 10 (['0'] ++ (Numeral.zeros (-n.point) ++ n.digits)) 0 =
        Nat.ofDigitChars 10 n.digits 0 :=
      ofDigitChars_zeros ((-n.point).toNat + 1) n.digits
    have places : -((Numeral.zeros (-n.point) ++ n.digits).length : Int) =
        n.point - n.digits.length := by
      simp only [Numeral.zeros, List.length_append, List.length_replicate]
      omega
    rw [value_ofText, zeros, places, Numeral.value]

/-- All digits stand before the point. -/
theorem spells_of_large (significant : n.Significant) (large : ¬n.point ≤ 0)
    (all : n.digits.length ≤ n.point) :
    Spells n.positional n.value (n.digits ++ Numeral.zeros (n.point - n.digits.length)) [] := by
  obtain ⟨digits, first, rest, found, nonzero⟩ := significant
  have count : ((n.point - n.digits.length).toNat : Int) = n.point - n.digits.length :=
    Int.toNat_of_nonneg (by omega)
  refine ⟨?_, ?_, nofun, ?_⟩
  · rw [Numeral.positional, if_neg large, if_pos all]
    rfl
  · have kept : ∀ c ∈ n.digits ++ Numeral.zeros (n.point - n.digits.length),
        c.isDigit = true := by
      intro c member
      rcases List.mem_append.mp member with digit | zero
      · exact digits c digit
      · exact isDigit_zeros zero
    rw [found] at kept ⊢
    exact isWhole_of_ne_zero kept nonzero
  · rw [value_ofText, List.append_nil, Numeral.zeros, ofDigitChars_append_zeros, Numeral.value]
    conv_rhs => rw [← count, zpow_natCast]
    push_cast
    simp [mul_comm]

/-- The point stands among the digits. -/
theorem spells_of_between (significant : n.Significant) (large : ¬n.point ≤ 0)
    (some : ¬n.digits.length ≤ n.point) :
    Spells n.positional n.value (n.digits.take n.point.toNat) (n.digits.drop n.point.toNat) := by
  obtain ⟨digits, first, rest, found, nonzero⟩ := significant
  have count : (n.point.toNat : Int) = n.point := Int.toNat_of_nonneg (by omega)
  obtain ⟨point, succ⟩ : ∃ point, n.point.toNat = point + 1 :=
    Nat.exists_eq_add_one.mpr (by omega)
  refine ⟨?_, ?_, fun c member => digits c (List.mem_of_mem_drop member), ?_⟩
  · rw [Numeral.positional, if_neg large, if_neg some]
    cases after : n.digits.drop n.point.toNat with
    | nil =>
      have short := List.drop_eq_nil_iff.mp after
      omega
    | cons c others => rfl
  · have kept : ∀ c ∈ n.digits.take n.point.toNat, c.isDigit = true :=
      fun c member => digits c (List.mem_of_mem_take member)
    rw [succ, found, List.take_succ_cons] at kept ⊢
    exact isWhole_of_ne_zero kept nonzero
  · have places : -((n.digits.drop n.point.toNat).length : Int) = n.point - n.digits.length := by
      rw [List.length_drop]
      omega
    rw [value_ofText, List.take_append_drop, places, Numeral.value]

theorem exists_spells_positional (significant : n.Significant) :
    ∃ whole fraction, Spells n.positional n.value whole fraction := by
  by_cases small : n.point ≤ 0
  · exact ⟨_, _, spells_of_small significant small⟩
  by_cases all : n.digits.length ≤ n.point
  · exact ⟨_, _, spells_of_large significant small all⟩
  · exact ⟨_, _, spells_of_between significant small all⟩

/-- The plain notation of a finite number is a sign and the text of a decimal that rounds to the
number. -/
theorem exists_plain {x : Float} (finite : isFinite x = true) :
    ∃ whole fraction, plain x = signText x ++ pointed whole fraction ∧ IsWhole whole ∧
      (∀ c ∈ fraction, c.isDigit = true) ∧
      (Decimal.ofText whole fraction 0).nearest = code x := by
  have below : code x < infinityCode := of_decide_eq_true finite
  unfold plain
  split
  · rename_i zero
    exact ⟨['0'], [], rfl, isWhole_zero, nofun, zero.symm⟩
  · rename_i some
    have digits := digits_shortest_pos .away below some
    obtain ⟨whole, fraction, spells⟩ :=
      exists_spells_positional (Decimal.significant_numeral (Nat.ne_of_gt digits))
    refine ⟨whole, fraction, congrArg _ spells.text, spells.before, spells.after, ?_⟩
    rw [Decimal.nearest_congr (spells.value.trans (Decimal.value_numeral _)),
      nearest_shortest .away below]

end JsonQuery.Number
