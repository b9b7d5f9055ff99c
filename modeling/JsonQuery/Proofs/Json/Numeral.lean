import JsonQuery.Json.Numeral
import JsonQuery.Proofs.Number.Interchange
import JsonQuery.Proofs.Text.Digits

/-! Number texts are read as what they spell. The plain notation of a finite number is a number
text, and it is read as that number, whether it looks like an integer or not. -/
namespace JsonQuery.Json

open Number (IsWhole Scales exponentText pointed)

variable {whole fraction scale rest : List Char} {e : Int}

namespace Numeral

theorem digits?_append {ds : List Char} (digits : ∀ c ∈ ds, c.isDigit = true) (present : ds ≠ [])
    (stops : ∀ c ∈ rest.head?, c.isDigit = false) : digits? (ds ++ rest) = some (ds, rest) := by
  obtain ⟨taken, left⟩ := Text.span_append digits stops
  unfold digits?
  rw [taken, left]
  cases ds with
  | nil => exact absurd rfl present
  | cons c others => rfl

theorem whole?_append (isWhole : IsWhole whole) (stops : ∀ c ∈ rest.head?, c.isDigit = false) :
    whole? (whole ++ rest) = some (whole, rest) := by
  obtain ⟨digits, present, needed⟩ := isWhole
  unfold whole?
  rw [digits?_append digits present stops]
  split
  · rename_i found
    cases found
    exact absurd rfl (needed _ _)
  · rfl

/-- A sign is read apart from the rest. -/
theorem ofText?_sign (negative : Bool) (unsigned : rest.head? ≠ some '-') :
    ofText? ((if negative then ['-'] else []) ++ rest) = do
      let (whole, rest) ← whole? rest
      let (fraction, rest) ← fraction? rest
      let exponent ← exponent? rest
      return ⟨negative, whole, fraction, exponent⟩ := by
  cases negative with
  | true => rfl
  | false =>
    cases rest with
    | nil => rfl
    | cons c others =>
      have other : c ≠ '-' := fun same => unsigned (congrArg some same)
      unfold ofText?
      simp only [Bool.false_eq_true, if_false, List.nil_append]
      split
      · rename_i same
        exact absurd (List.cons.inj same).1 other
      · rfl

theorem head?_pointed_append (isWhole : IsWhole whole) (scale : List Char) :
    (pointed whole fraction ++ scale).head? ≠ some '-' := by
  obtain ⟨digits, present, _⟩ := isWhole
  obtain ⟨first, others, rfl⟩ := List.exists_cons_of_ne_nil present
  have digit : some first ≠ some '-' := by
    rintro ⟨⟩
    exact absurd (digits '-' List.mem_cons_self) (by decide)
  cases fraction <;> exact digit

theorem exponent?_exponentText (e : Int) : exponent? (exponentText e) = some e := by
  have read : digits? (Number.digitsText e.natAbs) = some (Number.digitsText e.natAbs, []) := by
    have digits := @digits?_append [] (Number.digitsText e.natAbs)
      (fun _ => Number.isDigit_of_mem_digitsText) Nat.toDigits_ne_nil nofun
    rwa [List.append_nil] at digits
  have magnitude : Nat.ofDigitChars 10 (Number.digitsText e.natAbs) 0 = e.natAbs :=
    Nat.ofDigitChars_ten_toDigits
  unfold exponentText
  by_cases negative : e < 0
  · have value : -((Nat.ofDigitChars 10 (Number.digitsText e.natAbs) 0 : Nat) : Int) = e := by
      rw [magnitude]
      omega
    rw [if_pos negative]
    simp only [exponent?, read, value]
    rfl
  · have value : ((Nat.ofDigitChars 10 (Number.digitsText e.natAbs) 0 : Nat) : Int) = e := by
      rw [magnitude]
      omega
    rw [if_neg negative]
    simp only [exponent?, read, value]
    rfl

theorem exponent?_of_scales (scales : Scales scale e) : exponent? scale = some e := by
  cases scales with
  | one => rfl
  | marked e => exact exponent?_exponentText e

/-- An exponent goes on with neither the digits nor the point before it. -/
theorem stops_of_scales (scales : Scales scale e) :
    ∀ c ∈ scale.head?, c.isDigit = false ∧ c ≠ '.' := by
  cases scales with
  | one => nofun
  | marked e =>
    rintro c ⟨⟩
    exact ⟨rfl, by decide⟩

/-- Digits with a point and an exponent are read as their parts. -/
theorem ofText?_scaled (isWhole : IsWhole whole) (digits : ∀ c ∈ fraction, c.isDigit = true)
    (scales : Scales scale e) (negative : Bool) :
    ofText? ((if negative then ['-'] else []) ++ (pointed whole fraction ++ scale)) =
      some ⟨negative, whole, fraction, e⟩ := by
  have stops := stops_of_scales scales
  rw [ofText?_sign negative (head?_pointed_append isWhole scale)]
  cases fraction with
  | nil =>
    have read := whole?_append isWhole fun c member => (stops c member).1
    have read' : fraction? scale = some ([], scale) := by
      unfold fraction?
      split
      · exact absurd rfl (stops _ rfl).2
      · rfl
    simp only [pointed, read, read', exponent?_of_scales scales, Option.bind_eq_bind,
      Option.bind_some]
    rfl
  | cons d others =>
    have point : ∀ c ∈ ('.' :: (d :: others ++ scale)).head?, c.isDigit = false := by
      rintro c ⟨⟩
      rfl
    have read := whole?_append isWhole point
    have read' : fraction? ('.' :: (d :: others ++ scale)) = some (d :: others, scale) :=
      digits?_append digits (List.cons_ne_nil _ _) fun c member => (stops c member).1
    simp only [pointed, List.append_assoc, List.cons_append] at read read' ⊢
    simp only [read, read', exponent?_of_scales scales, Option.bind_eq_bind, Option.bind_some]
    rfl

/-- A numeral that spells an integer is the number of the integer. -/
theorem ofInt_of_integer? {n : Numeral} {i : Int} (spelled : n.integer? = some i) :
    Number.ofInt i = n.number := by
  obtain ⟨negative, whole, fraction, exponent⟩ := n
  unfold integer? at spelled
  dsimp only at spelled
  split at spelled
  · rename_i plain
    obtain ⟨none, rfl, signed⟩ := plain
    obtain rfl : fraction = [] := List.isEmpty_iff.mp none
    have rounds : (Number.Decimal.ofText whole [] 0).nearest =
        Number.nearestCode (Nat.ofDigitChars 10 whole 0 * Number.unitsPerOne) 1 := by
      rw [Number.Decimal.nearest_eq]
      simp [Number.Decimal.ofText]
    have sign : decide (i < 0) = negative := by
      cases spelled
      cases negative with
      | true =>
        have present : Nat.ofDigitChars 10 whole 0 ≠ 0 := fun zero => signed ⟨rfl, zero⟩
        simp only [if_true, decide_eq_true_eq]
        omega
      | false => simp
    have magnitude : i.natAbs = Nat.ofDigitChars 10 whole 0 := by
      cases spelled
      split <;> simp
    rw [Number.ofInt, number, Number.Decimal.toNumber, rounds, sign, magnitude]
  · cases spelled

end Numeral

/-- A number text becomes an integer or a real number, but the same number. -/
theorem toValue_of_ofText? {cs : List Char} {n : Numeral} (read : Numeral.ofText? cs = some n)
    (finite : Number.isFinite n.number = true) :
    ∃ j, ofNumberText? cs = some j ∧ j.toValue = .number n.number := by
  unfold ofNumberText?
  simp only [read, Option.bind_eq_bind, Option.bind_some, finite, if_true]
  cases spelled : n.integer? with
  | none => exact ⟨_, rfl, rfl⟩
  | some i =>
    refine ⟨_, rfl, ?_⟩
    rw [toValue, Numeral.ofInt_of_integer? spelled]

/-- The plain notation of a finite number is read as the number. -/
theorem ofNumberText?_plain {x : Float} (finite : Number.isFinite x = true) :
    ∃ j, ofNumberText? (Number.plain x) = some j ∧ j.toValue = .number x := by
  obtain ⟨whole, fraction, text, isWhole, digits, rounds⟩ := Number.exists_plain finite
  have read := Numeral.ofText?_scaled isWhole digits .one (Number.isNegative x)
  rw [List.append_nil] at read
  have same : Numeral.number ⟨Number.isNegative x, whole, fraction, 0⟩ = x := by
    rw [Numeral.number, Number.Decimal.toNumber, rounds, Number.ofCode_code]
  have result := toValue_of_ofText? read (same.symm ▸ finite)
  rwa [same, ← Number.signText, ← text] at result

end JsonQuery.Json
