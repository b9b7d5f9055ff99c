import JsonQuery.Json.Text
import JsonQuery.Proofs.Json.Reading

/-! The parts of a document's text and what they are read as: quoted texts, integers, and real
numbers in interchange notation. -/
namespace JsonQuery.Json

open Number (IsWhole Scales pointed)

variable {whole fraction scale : List Char} {e : Int}

/-- The interchange notation of a finite number is read as the number. -/
theorem ofNumberText?_interchange {x : Float} (finite : Number.isFinite x = true) :
    ∃ j, ofNumberText? (Number.interchange x) = some j ∧ j.toValue = .number x := by
  obtain ⟨whole, fraction, scale, e, text, isWhole, digits, scales, rounds⟩ :=
    Number.exists_interchange finite
  have read := Numeral.ofText?_scaled isWhole digits scales (Number.isNegative x)
  have same : Numeral.number ⟨Number.isNegative x, whole, fraction, e⟩ = x := by
    rw [Numeral.number, Number.Decimal.toNumber, rounds, Number.ofCode_code]
  have result := toValue_of_ofText? read (same.symm ▸ finite)
  rwa [same, ← Number.signText, ← text] at result

theorem isWhole_digitsText (n : Nat) : IsWhole (Number.digitsText n) := by
  rcases Nat.eq_zero_or_pos n with rfl | some
  · exact Number.isWhole_zero
  · obtain ⟨first, rest, found, nonzero⟩ := Number.exists_digitsText (Nat.ne_of_gt some)
    have digits : ∀ c ∈ first :: rest, c.isDigit = true :=
      fun c member => Number.isDigit_of_mem_digitsText (found ▸ member)
    rw [found]
    exact Number.isWhole_of_ne_zero digits nonzero

/-- An integer is read as its number, if the number is finite. -/
theorem ofNumberText?_integerText {i : Int} (finite : Number.isFinite (Number.ofInt i) = true) :
    ∃ j, ofNumberText? (integerText i) = some j ∧ j.toValue = .number (Number.ofInt i) := by
  have text : integerText i = (if decide (i < 0) then ['-'] else []) ++
      (pointed (Number.digitsText i.natAbs) [] ++ []) := by
    simp [integerText, pointed]
  have read := Numeral.ofText?_scaled (isWhole_digitsText i.natAbs) (List.forall_mem_nil _) .one
    (decide (i < 0))
  have spelled : (⟨decide (i < 0), Number.digitsText i.natAbs, [], 0⟩ : Numeral).integer? =
      some i := by
    have magnitude : Nat.ofDigitChars 10 (Number.digitsText i.natAbs) 0 = i.natAbs :=
      Nat.ofDigitChars_ten_toDigits
    have signed : ¬(decide (i < 0) = true ∧ i.natAbs = 0) := by
      rintro ⟨negative, none⟩
      rw [Int.natAbs_eq_zero.mp none] at negative
      cases negative
    unfold Numeral.integer?
    dsimp only
    rw [magnitude, if_pos ⟨rfl, rfl, signed⟩]
    by_cases negative : i < 0
    · rw [if_pos (decide_eq_true negative)]
      exact congrArg some (by omega)
    · rw [if_neg (by simpa using negative)]
      exact congrArg some (by omega)
  have same := Numeral.ofInt_of_integer? spelled
  have result := toValue_of_ofText? read (same ▸ finite)
  rwa [← same, ← text] at result

theorem escapes : Escapes escape := by
  intro c
  refine escaped_ite (fun _ => rfl) fun quote => ?_
  refine escaped_ite (fun _ => rfl) fun backslash => ?_
  refine escaped_ite (fun _ => rfl) fun _ => ?_
  refine escaped_ite (fun _ => rfl) fun _ => ?_
  refine escaped_ite (fun _ => rfl) fun _ => ?_
  refine escaped_ite (fun _ => rfl) fun _ => ?_
  refine escaped_ite (fun _ => rfl) fun _ => ?_
  split
  · rename_i control
    exact escaped_codeEscape (by omega)
  · rename_i printed
    exact escaped_self quote backslash (by omega)

theorem exists_reads_interchange {x : Float} (finite : Number.isFinite x = true) :
    ∃ j, Reads 0 (Number.interchange x) j ∧ j.toValue = .number x := by
  obtain ⟨whole, fraction, scale, e, text, isWhole, digits, scales, _⟩ :=
    Number.exists_interchange finite
  have numeral : ∀ c ∈ Number.interchange x, isNumeral c = true := by
    intro c member
    rw [text, List.mem_append, List.mem_append] at member
    rcases member with sign | places | scale
    · exact isNumeral_sign _ c sign
    · exact isNumeral_pointed isWhole digits c places
    · exact isNumeral_scales scales c scale
  obtain ⟨j, read, same⟩ := ofNumberText?_interchange finite
  exact ⟨j, reads_number numeral read, same⟩

theorem exists_reads_integerText {i : Int} (finite : Number.isFinite (Number.ofInt i) = true) :
    ∃ j, Reads 0 (integerText i) j ∧ j.toValue = .number (Number.ofInt i) := by
  have numeral : ∀ c ∈ integerText i, isNumeral c = true := by
    intro c member
    rcases List.mem_append.mp member with sign | digit
    · exact isNumeral_sign (decide (i < 0)) c (by simpa using sign)
    · exact isNumeral_of_isDigit (Number.isDigit_of_mem_digitsText digit)
  obtain ⟨j, read, same⟩ := ofNumberText?_integerText finite
  exact ⟨j, reads_number numeral read, same⟩

end JsonQuery.Json
