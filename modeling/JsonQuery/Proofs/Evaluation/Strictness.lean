import JsonQuery.Evaluation.Run
import JsonQuery.Proofs.Interpretation.Visit
import JsonQuery.Typing.Check

/-! What the settings can change. A strict run and a check without unquoted names fail where others
make do, but a result that they give is everyone's result. -/
namespace JsonQuery

namespace Evaluation

variable {o o' : Options}

/-- A strict run finds a name only where there is something to find, and all others find it
there. -/
theorem identifier_of_strict (strict : o.strict = true) {name : String} {ambient v : Value}
    (h : identifier o name ambient = .ok v) : identifier o' name ambient = .ok v := by
  unfold identifier at h ⊢
  split
  · rename_i self
    rwa [if_pos self] at h
  · rename_i other
    rw [if_neg other] at h
    cases found : (special? name ambient).or (ambient.get? name) with
    | some w =>
      rw [found] at h
      exact h
    | none =>
      rw [found] at h
      simp [Options.fallsBackToName, strict] at h

/-- Under a strict run no item is left out for a failure of the condition. -/
theorem select_of_strict (strict : o.strict = true)
    {p q : Value → Except (Located RuntimeError) Value}
    (agree : ∀ item verdict, p item = .ok verdict → q item = .ok verdict)
    {items kept : List Value} (h : select o p items = .ok kept) : select o' q items = .ok kept := by
  induction items generalizing kept with
  | nil => exact h
  | cons item items ih =>
    unfold select at h ⊢
    cases judged : p item with
    | error e => simp [judged, strict] at h
    | ok verdict =>
      rw [judged] at h
      rw [agree item verdict judged]
      obtain ⟨rest, selected, made⟩ := bind_eq_ok.mp h
      exact bind_eq_ok.mpr ⟨rest, ih selected, made⟩

theorem interpretation_below (strict : o.strict = true) :
    (interpretation o).Below (interpretation o') where
  literal _ := rfl
  identifier _ _ _ h := identifier_of_strict strict h
  indexable _ h := h
  index _ _ _ h := h
  slice _ _ _ h := h
  unary _ _ _ h := h
  binary _ _ _ _ h := h
  filter items span p q r agree h := by
    cases items with
    | array items =>
      change (select o p items).map Value.array = .ok r at h
      cases selected : select o p items with
      | error e => rw [selected] at h; cases h
      | ok kept =>
        rw [selected] at h
        change (select o' q items).map Value.array = .ok r
        rw [select_of_strict strict agree selected]
        exact h
    | _ => cases h

end Evaluation

namespace Typing

variable {o o' : Options}

/-- Without a fallback a name is typed by what the schema knows of it, which every check knows. -/
theorem identifier_of_not_fallsBackToName (exact : o.fallsBackToName = false) {name : String}
    {ambient s : Schema} (h : identifier o name ambient = .ok s) :
    identifier o' name ambient = .ok s := by
  unfold identifier at h ⊢
  split
  · rename_i self
    rwa [if_pos self] at h
  · rename_i other
    rw [if_neg other] at h
    cases found : (special? name ambient).or (ambient.property? name) with
    | some t =>
      rw [found] at h
      exact h
    | none =>
      rw [found] at h
      cases ambient with
      | unknown => exact h
      | _ => simp [exact] at h

theorem interpretation_below (exact : o.fallsBackToName = false) :
    (interpretation o).Below (interpretation o') where
  literal _ := rfl
  identifier _ _ _ h := identifier_of_not_fallsBackToName exact h
  indexable _ h := h
  index _ _ _ h := h
  slice _ _ _ h := h
  unary _ _ _ h := h
  binary _ _ _ _ h := h
  filter items span p q r agree h := by
    obtain ⟨item, found, rest⟩ := bind_eq_ok.mp h
    obtain ⟨verdict, judged, made⟩ := bind_eq_ok.mp rest
    exact bind_eq_ok.mpr ⟨item, found, bind_eq_ok.mpr ⟨verdict, agree _ _ judged, made⟩⟩

end Typing

/-- What a strict run gives, every run gives, and what a check gives that does not read unresolved
names as strings, every check gives. -/
theorem results_of_strict :
    (∀ (o o' : Options) (e : Expr) (input v : Value), o.strict = true →
      Evaluation.run o e input = .ok v → Evaluation.run o' e input = .ok v) ∧
    (∀ (o o' : Options) (e : Expr) (input s : Schema), o.fallsBackToName = false →
      Typing.check o e input = .ok s → Typing.check o' e input = .ok s) :=
  ⟨fun _ _ _ _ _ strict h => (Evaluation.interpretation_below strict).meaning h,
    fun _ _ _ _ _ exact h => (Typing.interpretation_below exact).meaning h⟩

def named : Expr :=
  .filter (.identifier "xs" ⟨0, 2⟩)
    (.binary .equal (.identifier "n" ⟨9, 1⟩) (.literal (.string "b") ⟨14, 3⟩) ⟨11, 2⟩) ⟨3, 5⟩

theorem results_of_strict_named :
    let item (n : String) : Value := .object [("n", .string n)]
    let input : Value := .object [("xs", .array [item "a", item "b"])]
    let shape : Schema := .object [("xs", .array (.object [("n", .string)]))]
    (Evaluation.run ⟨true, true⟩ named input = .ok (.array [item "b"]) ∧
      Evaluation.run ⟨false, true⟩ named input = .ok (.array [item "b"])) ∧
    (Typing.check ⟨true, true⟩ named shape = .ok (.array (.object [("n", .string)])) ∧
      Typing.check ⟨false, true⟩ named shape = .ok (.array (.object [("n", .string)]))) :=
  ⟨⟨rfl, results_of_strict.1 ⟨true, true⟩ _ _ _ _ rfl rfl⟩,
    ⟨rfl, results_of_strict.2 ⟨true, true⟩ _ _ _ _ rfl rfl⟩⟩

end JsonQuery
