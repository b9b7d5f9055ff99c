import JsonQuery.Text.Basic

/-! What a computation promises about its result and about its failure. Promises compose along the
steps of a computation, so that a sequence of steps is judged step by step. -/
namespace JsonQuery

variable {ε α β : Type} {x : Except ε α} {f : α → Except ε β}

theorem bind_eq_ok {b : β} : (x >>= f) = .ok b ↔ ∃ a, x = .ok a ∧ f a = .ok b := by
  cases x with
  | error e => simp [bind, Except.bind]
  | ok a => simp [bind, Except.bind]

theorem bind_eq_error {e : ε} :
    (x >>= f) = .error e ↔ x = .error e ∨ ∃ a, x = .ok a ∧ f a = .error e := by
  cases x with
  | error e' => simp [bind, Except.bind]
  | ok a => simp [bind, Except.bind]

/-- A step without a result only has to succeed. -/
theorem check_bind_eq_ok {x : Except ε Unit} {f : Unit → Except ε β} {b : β} :
    (x >>= f) = .ok b ↔ x = .ok () ∧ f () = .ok b := by
  cases x with
  | error e => simp [bind, Except.bind]
  | ok a => simp [bind, Except.bind]

theorem Span.locate_eq_ok {span : Span} {a : α} : span.locate x = .ok a ↔ x = .ok a := by
  cases x <;> simp

theorem Span.locate_eq_error {span : Span} {e : Located ε} :
    span.locate x = .error e ↔ ∃ cause, x = .error cause ∧ e = ⟨cause, span⟩ := by
  cases x with
  | error cause => simp [eq_comm]
  | ok a => simp

/-- Either there is a result with one property, or there is a failure with another. -/
def Ensures (post : α → Prop) (fails : ε → Prop) : Except ε α → Prop
  | .ok a => post a
  | .error e => fails e

namespace Ensures

variable {post : α → Prop} {next : β → Prop} {fails : ε → Prop}

theorem bind (first : Ensures post fails x) (rest : ∀ a, post a → Ensures next fails (f a)) :
    Ensures next fails (x >>= f) := by
  cases x with
  | error e => exact first
  | ok a => exact rest a first

/-- What always fails is not continued. -/
theorem stop (first : Ensures (fun _ => False) fails x) : Ensures next fails (x >>= f) :=
  first.bind fun _ never => never.elim

theorem map {g : α → β} (first : Ensures post fails x) (rest : ∀ a, post a → next (g a)) :
    Ensures next fails (x.map g) := by
  cases x with
  | error e => exact first
  | ok a => exact rest a first

theorem mono {post' : α → Prop} (first : Ensures post fails x) (weaker : ∀ a, post a → post' a) :
    Ensures post' fails x := by
  cases x with
  | error e => exact first
  | ok a => exact weaker a first

theorem relax {fails' : ε → Prop} (first : Ensures post fails x)
    (weaker : ∀ e, fails e → fails' e) : Ensures post fails' x := by
  cases x with
  | error e => exact weaker e first
  | ok a => exact first

/-- Where a failure happened does not matter for what it is. -/
theorem locate (first : Ensures post fails x) (span : Span) :
    Ensures post (fun e => fails e.cause) (span.locate x) := by
  cases x with
  | error e => exact first
  | ok a => exact first

theorem of_eq_error {e : ε} (h : Ensures post fails x) (failed : x = .error e) : fails e := by
  rw [failed] at h
  exact h

theorem of_eq_ok {a : α} (h : Ensures post fails x) (succeeded : x = .ok a) : post a := by
  rw [succeeded] at h
  exact h

end Ensures

/-- Two outcomes have the same result, or both are failures and these are related. -/
def Agree {φ : Type} (related : ε → φ → Prop) : Except ε α → Except φ α → Prop
  | .ok a, .ok b => a = b
  | .error e, .error f => related e f
  | _, _ => False

namespace Agree

variable {φ : Type} {related : ε → φ → Prop} {y : Except φ α} {g : α → Except φ β}

theorem bind (first : Agree related x y) (rest : ∀ a, Agree related (f a) (g a)) :
    Agree related (x >>= f) (y >>= g) := by
  cases x with
  | error e =>
    cases y with
    | error e' => exact first
    | ok b => exact first.elim
  | ok a =>
    cases y with
    | error e' => exact first.elim
    | ok b =>
      have same : a = b := first
      subst same
      exact rest a

theorem mono {related' : ε → φ → Prop} (h : Agree related x y)
    (weaker : ∀ e f, related e f → related' e f) : Agree related' x y := by
  cases x with
  | error e =>
    cases y with
    | error e' => exact weaker e e' h
    | ok b => exact h.elim
  | ok a =>
    cases y with
    | error e' => exact h.elim
    | ok b => exact h

theorem eq_ok_iff (h : Agree related x y) {a : α} : x = .ok a ↔ y = .ok a := by
  cases x with
  | error e =>
    cases y with
    | error e' => simp
    | ok b => exact h.elim
  | ok b =>
    cases y with
    | error e' => exact h.elim
    | ok b' =>
      have same : b = b' := h
      rw [same]
      simp

theorem exists_of_eq_error (h : Agree related x y) {e : ε} (failed : x = .error e) :
    ∃ e', y = .error e' ∧ related e e' := by
  subst failed
  cases y with
  | error e' => exact ⟨e', rfl, h⟩
  | ok b => exact h.elim

/-- The same step at two places. -/
theorem locate {related : Located ε → Located ε → Prop} {span span' : Span} {x : Except ε α}
    (places : ∀ cause, related ⟨cause, span⟩ ⟨cause, span'⟩) :
    Agree related (span.locate x) (span'.locate x) := by
  cases x with
  | error e => exact places e
  | ok a => exact rfl

end Agree
end JsonQuery
