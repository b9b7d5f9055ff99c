import JsonQuery.Text.Basic
import Mathlib.Data.List.Basic
import Mathlib.Data.List.TakeWhile

/-! Blanks around a text. Leaving them out gives the same for a text with blanks around it as for
the text, and nothing is left out where a text begins and ends with characters that are not
blank. -/
namespace JsonQuery.Text

variable {cs before after : List Char}

theorem trim_surrounded (front : ∀ c ∈ before, isBlank c = true)
    (back : ∀ c ∈ after, isBlank c = true) : trim (before ++ cs ++ after) = trim cs := by
  have backReversed : ∀ c ∈ after.reverse, isBlank c = true :=
    fun c member => back c (List.mem_reverse.mp member)
  rw [trim, trim, List.append_assoc, List.dropWhile_append_of_pos front, List.dropWhile_append]
  split
  · rename_i blank
    rw [List.isEmpty_iff.mp blank, List.dropWhile_eq_nil_iff.mpr back]
  · rw [List.reverse_append, List.dropWhile_append_of_pos backReversed]

theorem dropWhile_isBlank (visible : ∀ c ∈ cs.head?, isBlank c = false) :
    cs.dropWhile isBlank = cs := by
  cases cs with
  | nil => rfl
  | cons c cs => rw [List.dropWhile_cons, visible c rfl]; rfl

theorem trim_eq_self (first : ∀ c ∈ cs.head?, isBlank c = false)
    (last : ∀ c ∈ cs.getLast?, isBlank c = false) : trim cs = cs := by
  rw [trim, dropWhile_isBlank first, dropWhile_isBlank (by rwa [List.head?_reverse]),
    List.reverse_reverse]

theorem trim_of_visible (visible : ∀ c ∈ cs, isBlank c = false) : trim cs = cs :=
  trim_eq_self (fun c first => visible c (List.mem_of_head? first)) fun c last =>
    visible c (List.mem_of_getLast? last)

/-- Blanks inside a text stay. -/
theorem trim_between (middle : List Char) (front : ∀ c ∈ before, isBlank c = false)
    (back : ∀ c ∈ after, isBlank c = false) (begins : before ≠ []) (ends : after ≠ []) :
    trim (before ++ middle ++ after) = before ++ middle ++ after := by
  refine trim_eq_self (fun c first => front c ?_) fun c last => back c ?_
  · rw [List.append_assoc, List.head?_append_of_ne_nil _ begins] at first
    exact List.mem_of_head? first
  · rw [List.getLast?_append_of_ne_nil _ ends] at last
    exact List.mem_of_getLast? last

theorem isBlank_of_isDigit {c : Char} (digit : c.isDigit = true) : isBlank c = false := by
  obtain ⟨zero, nine⟩ : 48 ≤ c.toNat ∧ c.toNat ≤ 57 := Char.isDigit_iff_toNat.mp digit
  simp [isBlank]
  omega

end JsonQuery.Text
