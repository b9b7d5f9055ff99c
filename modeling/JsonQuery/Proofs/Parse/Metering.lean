import JsonQuery.Proofs.Parse.Observation

/-! What reading an expression takes: how often an operand is begun, how many operands are inside of
each other, and how often the reader moves on. Each token pays for one of each, and the end of the
source for one more: moving on at the end leaves as much to read as before, but nothing starts there
and nothing binds there. -/
namespace JsonQuery.Parse

variable {α β : Type} {cap : Nat} {r r' : Reader}

/-- How often an operand is begun, how many operands are inside of each other at the deepest place,
and how often the reader moves on. -/
structure Cost where
  entries : Nat
  depth : Nat
  advances : Nat
  deep : depth ≤ entries

namespace Cost

def zero : Cost := ⟨0, 0, 0, Nat.le_refl 0⟩

def move : Cost := ⟨0, 0, 1, Nat.le_refl 0⟩

def plus (a b : Cost) : Cost :=
  ⟨a.entries + b.entries, max a.depth b.depth, a.advances + b.advances, by
    have first := a.deep
    have second := b.deep
    omega⟩

def nested (a : Cost) : Cost :=
  ⟨a.entries + 1, a.depth + 1, a.advances, Nat.succ_le_succ a.deep⟩

end Cost

instance : Ledger Cost where
  blank := .zero
  plus := .plus
  move := .move
  added _ := .zero
  nested := .nested

namespace Observed

variable {operand : Nat → Observed Cost Nat}

/-- What a reading leaves for what comes after it. -/
def credit : Except Stop α × Reader → Nat
  | (.ok _, r) => r.left + 1
  | (.error _, _) => 0

/-- A reading begins so many operands at most and moves on so often at most, and leaves enough for
what comes after it. -/
structure Within (x : Observed Cost α) (r : Reader) (entries advances : Nat) : Prop where
  entries : (x.log r).entries + credit (x.reading.run.run r) ≤ entries
  advances : (x.log r).advances + credit (x.reading.run.run r) ≤ advances

/-- The tokens that are left pay for a reading. -/
def Pays (x : Observed Cost α) (r : Reader) : Prop := x.Within r (r.left + 1) (r.left + 1)

variable {x : Observed Cost α} {f : α → Observed Cost β} {n m : Nat}

theorem Within.mono {n' m' : Nat} (h : x.Within r n m) (entries : n ≤ n') (advances : m ≤ m') :
    x.Within r n' m' :=
  ⟨Nat.le_trans h.entries entries, Nat.le_trans h.advances advances⟩

/-- What a first reading does not use is there for the second one. -/
theorem within_bind (entries : (x.log r).entries ≤ n) (advances : (x.log r).advances ≤ m)
    (rest : ∀ a r', x.reading.run.run r = (.ok a, r') →
      (f a).Within r' (n - (x.log r).entries) (m - (x.log r).advances)) :
    (x >>= f).Within r n m := by
  cases ran : x.reading.run.run r with
  | mk outcome r' =>
    cases outcome with
    | ok a =>
      obtain ⟨entries', advances'⟩ := rest a r' ran
      constructor
      all_goals
        rw [reading_bind, Reading.run_bind, ran, log_bind_of_ok ran]
        dsimp only [Ledger.plus, Cost.plus]
        omega
    | error stop =>
      constructor
      all_goals
        rw [reading_bind, Reading.run_bind, ran, log_bind_of_error ran]
        assumption

theorem Within.bind (first : x.Within r n m)
    (rest : ∀ a r', x.reading.run.run r = (.ok a, r') → (f a).Pays r') :
    (x >>= f).Within r n m := by
  obtain ⟨entries, advances⟩ := first
  apply within_bind (Nat.le_of_add_right_le entries) (Nat.le_of_add_right_le advances)
  intro a r' ran
  rw [ran, credit] at entries advances
  exact (rest a r' ran).mono (by omega) (by omega)

/-- An operand takes what is inside of it, and one entry more. -/
theorem within_enter (inner : x.Within { r with nesting := r.nesting + 1 } n m) :
    (Descent.enter x).Within r (n + 1) m := by
  obtain ⟨entries, advances⟩ := inner
  have same : credit ((Descent.enter x).reading.run.run r) =
      credit (x.reading.run.run { r with nesting := r.nesting + 1 }) := by
    rw [reading_enter, Reading.run_enter]
    cases x.reading.run.run { r with nesting := r.nesting + 1 } with
    | mk outcome r' => cases outcome <;> rfl
  constructor
  all_goals
    rw [same, log_enter]
    dsimp only [Ledger.nested, Cost.nested]
    omega

theorem within_fail (e : ParseError) (span : Span) :
    (Descent.fail e span : Observed Cost α).Within r n m :=
  ⟨Nat.zero_le _, Nat.zero_le _⟩

theorem within_look {f : Reader → Observed Cost β} (h : (f r).Within r n m) :
    (Descent.look >>= f).Within r n m := by
  apply within_bind (Nat.zero_le _) (Nat.zero_le _)
  rintro _ _ ⟨⟩
  exact h

/-- What is not counted only has to leave the tokens where they are. -/
theorem pays_of_log_eq_zero (free : x.log r = .zero)
    (leaves : credit (x.reading.run.run r) ≤ r.left + 1) : x.Pays r := by
  constructor
  all_goals
    rw [free]
    change 0 + credit (x.reading.run.run r) ≤ r.left + 1
    rwa [Nat.zero_add]

theorem pays_pure (a : α) : (pure a : Observed Cost α).Pays r :=
  pays_of_log_eq_zero rfl (Nat.le_refl _)

theorem pays_push (label : Label) (children : List Nat) (span : Span) :
    (Descent.push cap label children span : Observed Cost Nat).Pays r := by
  rcases Reading.run_push_cases cap label children span r with ⟨e, ran⟩ | ⟨table, -, ran⟩
  · apply pays_of_log_eq_zero (log_push_of_error ran)
    rw [reading_push, ran]
    exact Nat.zero_le _
  · apply pays_of_log_eq_zero (log_push_of_ok ran)
    rw [reading_push, ran]
    exact Nat.le_refl _

/-- Moving on gives the token that was ahead, and before the end takes it from what is left. -/
theorem left_of_advance {t : Token} (moved : Reading.advance.run.run r = (.ok t, r')) :
    t = r.current ∧ (r.current.kind ≠ .eof → r'.left + 1 = r.left) := by
  rcases Reading.run_advance_cases r with ⟨e, ran⟩ | ⟨next, cursor, read, ran⟩
  all_goals
    rw [ran] at moved
    cases moved
  refine ⟨rfl, fun more => ?_⟩
  rw [Reader.left, Reader.left, Reader.scan_of_more more, Reader.scan_of_next read]
  rfl

/-- A token is enough to move on. -/
theorem within_advance (more : r.current.kind ≠ .eof) {f : Token → Observed Cost β}
    (rest : ∀ r', (f r.current).Pays r') :
    (Descent.advance >>= f).Within r r.left (r.left + 1) := by
  apply within_bind (Nat.zero_le _) (Nat.succ_pos _)
  intro t r' moved
  obtain ⟨rfl, taken⟩ := left_of_advance moved
  change (f r.current).Within r' (r.left - 0) (r.left + 1 - 1)
  have taken := taken more
  exact (rest r').mono (by omega) (by omega)

theorem pays_advance (more : r.current.kind ≠ .eof) {f : Token → Observed Cost β}
    (rest : ∀ r', (f r.current).Pays r') : (Descent.advance >>= f).Pays r :=
  (within_advance more rest).mono (Nat.le_succ _) (Nat.le_refl _)

theorem pays_expect (kind : TokenKind) (inner : kind ≠ .eof) :
    (Descent.expect kind : Observed Cost Unit).Pays r := by
  apply within_look
  dsimp only
  split
  · rename_i closes
    exact pays_advance (closes ▸ inner) fun r' => pays_pure ()
  · exact within_fail _ _

section Operands

variable (pays : ∀ power r, (operand power).Pays r)
include pays

theorem pays_bounds (first : Nat) (span : Span) :
    (Descent.bounds cap operand first span).Pays r := by
  apply within_look
  dsimp only
  split
  · exact (pays_push _ _ _).bind fun last r' _ => pays_push _ _ _
  · exact (pays _ _).bind fun last r' _ => pays_push _ _ _

theorem pays_leading (t : Token) (preceding : Option TokenKind) :
    (Descent.leading cap operand t preceding).Pays r := by
  unfold Descent.leading
  cases kind : t.kind with
  | leftParen =>
    refine (pays _ _).bind fun inner r' _ => ?_
    exact (pays_expect _ (by decide)).bind fun _ r'' _ => pays_pure inner
  | not | addSub => exact (pays _ _).bind fun right r' _ => pays_push _ _ _
  | slice => exact (pays_push _ _ _).bind fun first r' _ => pays_bounds pays first t.span
  | identifier | string => exact pays_push _ _ _
  | number =>
    dsimp only
    split
    · exact pays_push _ _ _
    · exact within_fail _ _
  | eof | rightParen | leftBracket | rightBracket => exact within_fail _ _
  | dot | mulDiv | power | comparison | and | or | stringCompare | filter =>
    dsimp only
    split <;> exact within_fail _ _

theorem pays_following (t : Token) (left : Nat) :
    (Descent.following cap operand t left).Pays r := by
  unfold Descent.following
  cases kind : t.kind with
  | addSub | mulDiv | comparison | and | or | stringCompare =>
    dsimp only
    split
    · exact (pays _ _).bind fun right r' _ => pays_push _ _ _
    · exact within_fail _ _
  | power | dot | filter => exact (pays _ _).bind fun right r' _ => pays_push _ _ _
  | leftBracket =>
    refine (pays _ _).bind fun place r' _ => ?_
    exact (pays_expect _ (by decide)).bind fun _ r'' _ => pays_push _ _ _
  | slice => exact pays_bounds pays left t.span
  | _ => exact within_fail _ _

theorem pays_continued (power steps left : Nat) :
    (Descent.continued cap operand power steps left).Pays r := by
  induction steps generalizing left r with
  | zero => exact ⟨Nat.zero_le _, Nat.zero_le _⟩
  | succ steps ih =>
    apply within_look
    split
    · rename_i binds
      have more : r.current.kind ≠ .eof := by
        intro ends
        rw [ends] at binds
        exact absurd binds (Nat.not_lt_zero _)
      refine pays_advance more fun r' => ?_
      exact (pays_following pays _ _).bind fun left r'' _ => ih left
    · exact pays_pure left

end Operands

/-- Nothing starts at the end. -/
theorem within_leading_eof {t : Token} {preceding : Option TokenKind} (ends : t.kind = .eof)
    {f : Nat → Observed Cost β} : (Descent.leading cap operand t preceding >>= f).Within r n m := by
  unfold Descent.leading
  rw [ends]
  exact ⟨Nat.zero_le _, Nat.zero_le _⟩

theorem pays_expression (budget power : Nat) :
    (Descent.expression cap budget power : Observed Cost Nat).Pays r := by
  induction budget generalizing power r with
  | zero =>
    rw [Descent.expression]
    exact within_enter ⟨Nat.zero_le _, Nat.zero_le _⟩
  | succ budget ih =>
    rw [Descent.expression]
    let inner : Reader := { r with nesting := r.nesting + 1 }
    apply within_enter
    apply within_look
    split
    · exact within_fail _ _
    · by_cases ends : r.current.kind = .eof
      · apply within_bind (Nat.zero_le _) (Nat.succ_pos _)
        intro t r' moved
        obtain ⟨rfl, -⟩ := left_of_advance moved
        exact within_leading_eof ends
      · refine within_advance (r := inner) ends fun r' => ?_
        refine (pays_leading (fun power r => ih power) _ _).bind fun first r'' _ => ?_
        exact pays_continued (fun power r => ih power) _ _ _

theorem pays_whole (budget : Nat) :
    (Descent.whole cap budget : Observed Cost Nat).Pays r := by
  refine (pays_expression budget 0).bind fun root r' _ => ?_
  apply within_look
  dsimp only
  split
  · exact pays_pure root
  · exact within_fail _ _

end Observed
end JsonQuery.Parse

namespace JsonQuery.Arena

open Parse

def meter (source : String) (cap budget : Nat) : Except Stop Arena × Cost :=
  observe Cost source cap budget

/-- The descent begins at most one operand more than there are tokens, be they followed by the end
or by something that is no token, and as many times it moves on. It is nested no deeper than that,
so a budget of as much is never used up, and the cap takes no part in this. -/
theorem meter_le_tokens (source : String) (cap budget : Nat)
    (enough : (Scan.of source).tokens.length + 1 ≤ budget) :
    (meter source cap budget).1 = parse source cap ∧
      (meter source cap budget).1 ≠ .error .exhausted ∧
      (meter source cap budget).2.entries ≤ (Scan.of source).tokens.length + 1 ∧
      (meter source cap budget).2.depth ≤ (Scan.of source).tokens.length + 1 ∧
      (meter source cap budget).2.advances ≤ (Scan.of source).tokens.length + 1 := by
  have outcome : (meter source cap budget).1 = parse source cap := observe_eq_parse enough
  have ended : parse source cap ≠ .error .exhausted := by
    rw [parse_eq]
    cases Expr.parse source cap <;> nofun
  have paid : (meter source cap budget).2.entries ≤ (Scan.of source).tokens.length + 1 ∧
      (meter source cap budget).2.advances ≤ (Scan.of source).tokens.length + 1 := by
    cases started : Reader.start source with
    | error e =>
      rw [meter, observe, started]
      exact ⟨Nat.zero_le _, Nat.zero_le _⟩
    | ok r =>
      have left : r.left = (Scan.of source).tokens.length :=
        congrArg (fun scan => scan.tokens.length) (scan_of_start started).1
      obtain ⟨entries, advances⟩ := @Observed.pays_whole cap r budget
      rw [meter, log_of_start started]
      exact ⟨by omega, by omega⟩
  have deep := (meter source cap budget).2.deep
  exact ⟨outcome, outcome ▸ ended, paid.1, Nat.le_trans deep paid.1, paid.2⟩

/-- A budget of one more than the tokens is needed where every token begins an operand. Where
operands stand beside each other, they count one after the other, but only the deeper one is
deep. -/
theorem meter_le_tokens_signs :
    (Scan.of "not not").tokens.length = 2 ∧
      (meter "not not" 9 3).1 = parse "not not" 9 ∧ (meter "not not" 9 3).1 ≠ .error .exhausted ∧
      (meter "not not" 9 2).1 = .error .exhausted ∧
      (meter "not not" 9 3).2.entries = 3 ∧ (meter "not not" 9 3).2.depth = 3 ∧
      (meter "not not" 9 3).2.advances = 3 ∧
      (Scan.of "a * b + c").tokens.length = 5 ∧
      (meter "a * b + c" 9 6).2.entries = 3 ∧ (meter "a * b + c" 9 6).2.depth = 2 ∧
      (meter "a * b + c" 9 6).2.advances = 5 := by
  have count : (Scan.of "not not").tokens.length = 2 := by with_unfolding_all rfl
  obtain ⟨same, ended, -⟩ := meter_le_tokens "not not" 9 3 (by omega)
  refine ⟨count, same, ended, ?_, ?_, ?_, ?_, ?_, ?_, ?_, ?_⟩ <;> with_unfolding_all rfl

end JsonQuery.Arena
