import JsonQuery.Json.Token
import JsonQuery.Value.Text

/-! Quoted texts are read as what was quoted. A way to escape characters only has to write each one
so that it is read as itself. -/
namespace JsonQuery.Json

variable {c : Char} {cs rest : List Char} {escape : Char → List Char}

theorem hexDigit?_digitChar : ∀ n < 16, hexDigit? n.digitChar = some n := by decide

/-- Four hexadecimal digits are read as the number that they were written for. -/
theorem hex?_hexText {n : Nat} (small : n < 65536) : ∃ a b c d,
    Text.hexText n = [a, b, c, d] ∧ hex? a b c d = some n := by
  refine ⟨_, _, _, _, rfl, ?_⟩
  have digit (m : Nat) : hexDigit? (m % 16).digitChar = some (m % 16) :=
    hexDigit?_digitChar _ (Nat.mod_lt _ (by decide))
  simp only [hex?, digit, Option.pure_def, Option.bind_eq_bind, Option.bind_some, Option.some.injEq]
  omega

/-- A text stands for a character in quotes. It is read as the character, and is not taken for the
end. -/
def Escaped (c : Char) (cs : List Char) : Prop :=
  ∀ rest, character? (cs ++ rest) = some (c, rest) ∧ (cs ++ rest).head? ≠ some '"'

theorem not_quote_of_ne (other : c ≠ '"') : (c :: cs).head? ≠ some '"' :=
  fun same => other (Option.some.inj same)

/-- The escape of a character by its code is read as the character, outside of the surrogates. -/
theorem escaped_codeEscape (small : c.toNat < 0xD800) : Escaped c (Text.codeEscape c) := by
  intro rest
  refine ⟨?_, not_quote_of_ne (by decide)⟩
  obtain ⟨d₁, d₂, d₃, d₄, text, read⟩ := hex?_hexText (Nat.lt_trans small (by decide))
  have high : isHighSurrogate c.toNat = false := decide_eq_false (by omega)
  have low : isLowSurrogate c.toNat = false := decide_eq_false (by omega)
  change character? ('\\' :: 'u' :: (Text.hexText c.toNat ++ rest)) = _
  rw [text]
  change (hex? d₁ d₂ d₃ d₄).bind (fun n => ofCode? n rest) = _
  rw [read]
  simp [ofCode?, high, low, Char.ofNat_toNat]

/-- Most characters stand for themselves. -/
theorem escaped_self (quote : c ≠ '"') (backslash : c ≠ '\\') (printed : 0x20 ≤ c.toNat) :
    Escaped c [c] := by
  intro rest
  refine ⟨?_, not_quote_of_ne quote⟩
  change character? (c :: rest) = some (c, rest)
  unfold character?
  split
  · rename_i none
    cases none
  · rename_i same
    exact absurd (List.cons.inj same).1 backslash
  · rename_i same
    exact absurd (List.cons.inj same).1 backslash
  · rename_i same
    cases same
    have visible : ¬c.toNat < 0x20 := Nat.not_lt.mpr printed
    simp [quote, backslash, visible]

/-- One character has a short escape, and all others are treated in some other way. -/
theorem escaped_ite {d e : Char} (short : ∀ rest, character? ('\\' :: e :: rest) = some (d, rest))
    (others : c ≠ d → Escaped c cs) : Escaped c (if c == d then ['\\', e] else cs) := by
  split
  · rename_i same
    rw [eq_of_beq same]
    exact fun rest => ⟨short rest, not_quote_of_ne (by decide)⟩
  · rename_i other
    exact others fun same => other (beq_of_eq same)

def Escapes (escape : Char → List Char) : Prop := ∀ c, Escaped c (escape c)

theorem content?_flatMap (escapes : Escapes escape) (cs rest : List Char) :
    content? (cs.flatMap escape ++ '"' :: rest) = some (cs, rest) := by
  induction cs with
  | nil =>
    rw [content?]
    rfl
  | cons c cs ih =>
    obtain ⟨read, opens⟩ := escapes c (cs.flatMap escape ++ '"' :: rest)
    rw [List.flatMap_cons, List.append_assoc, content?, if_neg opens]
    split
    · rename_i none
      rw [read] at none
      cases none
    · rename_i found
      rw [read] at found
      cases found
      rw [ih]
      rfl

/-- A quoted text is the token of the text. -/
theorem read?_quoted (escapes : Escapes escape) (s : String) (rest : List Char) :
    Token.read? '"' (s.toList.flatMap escape ++ '"' :: rest) = some (.string s, rest) := by
  change (content? _).map _ = _
  rw [content?_flatMap escapes]
  simp

end JsonQuery.Json

namespace JsonQuery.Value

theorem escapes : Json.Escapes escape := by
  intro c
  refine Json.escaped_ite (fun _ => rfl) fun quote => ?_
  refine Json.escaped_ite (fun _ => rfl) fun backslash => ?_
  refine Json.escaped_ite (fun _ => rfl) fun _ => ?_
  refine Json.escaped_ite (fun _ => rfl) fun _ => ?_
  refine Json.escaped_ite (fun _ => rfl) fun _ => ?_
  split
  · rename_i control
    apply Json.escaped_codeEscape
    simp only [isControl, Bool.or_eq_true, Bool.and_eq_true, decide_eq_true_eq] at control
    omega
  · rename_i printed
    apply Json.escaped_self quote backslash
    simp only [isControl, Bool.or_eq_true, Bool.and_eq_true, decide_eq_true_eq] at printed
    omega

end JsonQuery.Value
