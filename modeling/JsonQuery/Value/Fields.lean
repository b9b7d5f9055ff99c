/-! Keys with values in the order in which the keys first came. -/
namespace JsonQuery

abbrev Fields (α : Type) := List (String × α)

namespace Fields

variable {α : Type}

/-- Gives a key a value. A key that is present keeps its place. -/
def put (key : String) (value : α) : Fields α → Fields α
  | [] => [(key, value)]
  | (k, v) :: fields =>
    if k = key then (k, value) :: fields else (k, v) :: put key value fields

def get? (key : String) (fields : Fields α) : Option α := fields.lookup key

def keys (fields : Fields α) : List String := fields.map Prod.fst

theorem keys_put (key : String) (value : α) (fields : Fields α) :
    keys (put key value fields) =
      if key ∈ keys fields then keys fields else keys fields ++ [key] := by
  induction fields with
  | nil => simp [put, keys]
  | cons field fields ih =>
    obtain ⟨k, v⟩ := field
    by_cases h : k = key
    · simp [put, keys, h]
    · have h' : ¬key = k := fun e => h e.symm
      unfold put
      rw [if_neg h]
      simp only [keys, List.map_cons, List.mem_cons, h', false_or] at ih ⊢
      rw [ih]
      split <;> simp_all

/-- A new key comes last. -/
theorem put_of_not_mem {key : String} {value : α} {fields : Fields α} (new : key ∉ keys fields) :
    put key value fields = fields ++ [(key, value)] := by
  induction fields with
  | nil => rfl
  | cons field fields ih =>
    simp only [keys, List.map_cons, List.mem_cons, not_or] at new
    rw [put, if_neg (Ne.symm new.1), ih new.2]
    rfl

end Fields
end JsonQuery
