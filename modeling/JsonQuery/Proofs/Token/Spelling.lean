import JsonQuery.Parse.Basic
import JsonQuery.Token.Scan

/-! What the class of a token says about its text. The classes of the binary operators hold nothing
but their symbols, except that a comparison may be a lone exclamation mark. -/
namespace JsonQuery

/-- The classes of the operators that their texts tell apart. -/
def TokenKind.IsSymbolic : TokenKind → Prop
  | .addSub | .mulDiv | .power | .comparison | .and | .or | .stringCompare => True
  | _ => False

/-- A text is a symbol of a binary operator wherever its class asks for one. -/
def Spelled (kind : TokenKind) (text : String) : Prop :=
  kind.IsSymbolic → (kind = .comparison → text ≠ "!") → ∃ op, BinaryOp.ofSymbol? text = some op

/-- The operators of a class take their right operands up to the next operator of the class. The
power does not, and is alone in its class. -/
def Weighted (kind : TokenKind) (text : String) : Prop :=
  (kind = .power → BinaryOp.ofSymbol? text = some (.arithmetic .power)) ∧
    (kind.IsSymbolic → kind ≠ .power →
      ∀ op, BinaryOp.ofSymbol? text = some op → op.threshold = kind.bindingPower)

namespace Lexeme

theorem spelled_wordKind (word : String) : Spelled (wordKind word) word := by
  unfold wordKind
  split <;> simp [Spelled, TokenKind.IsSymbolic, BinaryOp.ofSymbol?]

theorem spelled_punctuation {c : Char} {kind : TokenKind} (h : punctuation c = some kind) :
    Spelled kind (String.ofList [c]) := by
  unfold punctuation at h
  split at h <;> cases h <;> simp [Spelled, TokenKind.IsSymbolic, BinaryOp.ofSymbol?]

theorem isRelation_cases {c : Char} (h : isRelation c = true) : c = '<' ∨ c = '>' ∨ c = '!' := by
  simpa [isRelation, or_assoc] using h

theorem spelled_of_read {c : Char} {rest : List Char} {l : Lexeme} (h : read c rest = .ok l) :
    Spelled l.kind (String.ofList l.text) := by
  unfold read at h
  split at h
  · cases h
    exact fun symbolic => symbolic.elim
  split at h
  · split at h <;> cases h
    exact fun symbolic => symbolic.elim
  split at h
  · split at h <;> cases h
    exact fun _ _ => ⟨_, rfl⟩
  split at h
  · rename_i relation
    split at h <;> cases h
    · rcases isRelation_cases relation with rfl | rfl | rfl <;> exact fun _ _ => ⟨_, rfl⟩
    · rcases isRelation_cases relation with rfl | rfl | rfl
      · exact fun _ _ => ⟨_, rfl⟩
      · exact fun _ _ => ⟨_, rfl⟩
      · exact fun _ other => absurd rfl (other rfl)
  split at h
  · rename_i found
    cases h
    exact spelled_punctuation found
  · cases h
    exact spelled_wordKind _

theorem weighted_wordKind (word : String) : Weighted (wordKind word) word := by
  unfold wordKind
  split <;> simp [Weighted, TokenKind.IsSymbolic, BinaryOp.ofSymbol?, BinaryOp.threshold,
    TokenKind.bindingPower]

theorem weighted_punctuation {c : Char} {kind : TokenKind} (h : punctuation c = some kind) :
    Weighted kind (String.ofList [c]) := by
  unfold punctuation at h
  split at h <;> cases h <;> simp [Weighted, TokenKind.IsSymbolic, BinaryOp.ofSymbol?,
    BinaryOp.threshold, TokenKind.bindingPower]

/-- All comparisons weigh the same. -/
theorem weighted_comparison {text : String}
    (weighs : ∀ op, BinaryOp.ofSymbol? text = some op → op.threshold = 5) :
    Weighted .comparison text :=
  ⟨fun other => (nomatch other), fun _ _ => weighs⟩

theorem weighted_of_read {c : Char} {rest : List Char} {l : Lexeme} (h : read c rest = .ok l) :
    Weighted l.kind (String.ofList l.text) := by
  unfold read at h
  split at h
  · cases h
    exact ⟨fun other => (nomatch other), fun symbolic => symbolic.elim⟩
  split at h
  · split at h <;> cases h
    exact ⟨fun other => (nomatch other), fun symbolic => symbolic.elim⟩
  split at h
  · split at h <;> cases h
    exact weighted_comparison (by simp [BinaryOp.ofSymbol?, BinaryOp.threshold])
  split at h
  · rename_i relation
    split at h <;> cases h <;> rcases isRelation_cases relation with rfl | rfl | rfl <;>
      exact weighted_comparison (by simp [BinaryOp.ofSymbol?, BinaryOp.threshold])
  split at h
  · rename_i found
    cases h
    exact weighted_punctuation found
  · cases h
    exact weighted_wordKind _

end Lexeme

namespace Scan

/-- A token before the end comes from a lexeme, so what holds of the class and the text of every
lexeme holds of every token. -/
theorem forall_mem_tokens {P : TokenKind → String → Prop}
    (each : ∀ {c rest l}, Lexeme.read c rest = .ok l → P l.kind (String.ofList l.text))
    (c : Cursor) : ∀ t ∈ (Scan.ofCursor c).tokens, P t.kind t.text := by
  fun_induction Scan.ofCursor c with
  | case1 c e d h => simp
  | case2 c t d h => simp
  | case3 c t d h more lt others ih =>
    intro u member
    rcases List.mem_cons.mp member with rfl | later
    · unfold Cursor.next at h
      dsimp only at h
      split at h
      · cases h
        exact absurd rfl more
      · split at h <;> cases h
        rename_i read
        exact each read
    · exact ih u later

theorem spelled_of_mem {source : String} {t : Token} (member : t ∈ (Scan.of source).tokens) :
    Spelled t.kind t.text :=
  forall_mem_tokens Lexeme.spelled_of_read _ t member

end Scan
end JsonQuery
