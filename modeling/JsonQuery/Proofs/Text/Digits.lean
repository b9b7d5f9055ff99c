import Mathlib.Data.List.TakeWhile
import Mathlib.Data.Nat.Basic
import Mathlib.Order.Compare
import Mathlib.Order.Lattice
import Mathlib.Tactic.Ring

/-! Fields of digits. A number is written with a fixed number of digits, with zeros in front of a
small one, so that it can be read back and that texts stand in the order of their numbers. Such a
comparison goes part by part, and the parts decide in their order. -/
namespace JsonQuery

section
variable {α β : Type} [LinearOrder α] [LinearOrder β] {a b : α} {x y : β} {o : Ordering}

/-- The first parts decide, unless they are the same. -/
theorem cmp_eq_then (less : a < b → x < y) (greater : b < a → y < x) (same : a = b → cmp x y = o) :
    cmp x y = (cmp a b).then o := by
  rcases lt_trichotomy a b with before | equal | after
  · rw [(cmp_eq_lt_iff a b).mpr before, (cmp_eq_lt_iff x y).mpr (less before)]
    rfl
  · rw [same equal, equal, cmp_self_eq_eq]
    rfl
  · rw [(cmp_eq_gt_iff a b).mpr after, (cmp_eq_gt_iff x y).mpr (greater after)]
    rfl

/-- There is nothing but the first parts. -/
theorem cmp_eq_cmp (less : a < b → x < y) (greater : b < a → y < x) (same : a = b → x = y) :
    cmp x y = cmp a b := by
  rw [cmp_eq_then less greater fun equal => (cmp_eq_eq_iff x y).mpr (same equal), Ordering.then_eq]

end

namespace Text

/-- What goes on until some character stops it takes just that much of a text. -/
theorem span_append {p : Char → Bool} {cs rest : List Char} (all : ∀ c ∈ cs, p c = true)
    (stops : ∀ c ∈ rest.head?, p c = false) :
    (cs ++ rest).takeWhile p = cs ∧ (cs ++ rest).dropWhile p = rest := by
  rw [List.takeWhile_append_of_pos all, List.dropWhile_append_of_pos all]
  cases rest with
  | nil => simp
  | cons c others => simp [stops c rfl]

/-- The last digits of a number, one for each of some places. -/
def padded : Nat → Nat → List Char
  | 0, _ => []
  | width + 1, n => Nat.digitChar (n / 10 ^ width % 10) :: padded width n

@[simp] theorem length_padded (width n : Nat) : (padded width n).length = width := by
  induction width with
  | zero => rfl
  | succ width ih => rw [padded, List.length_cons, ih]

theorem isDigit_of_mem_padded {width n : Nat} {c : Char} (member : c ∈ padded width n) :
    c.isDigit = true := by
  induction width with
  | zero => exact absurd member List.not_mem_nil
  | succ width ih =>
    rcases List.mem_cons.mp member with rfl | later
    · rw [Nat.isDigit_digitChar]
      exact decide_eq_true (Nat.mod_lt _ (by decide))
    · exact ih later

theorem exists_padded_append (width n : Nat) (rest : List Char) :
    ∃ c others, padded (width + 1) n ++ rest = c :: others ∧ c.isDigit = true :=
  ⟨_, _, rfl, @isDigit_of_mem_padded (width + 1) n _ List.mem_cons_self⟩

theorem ofDigitChars_padded (width n before : Nat) :
    Nat.ofDigitChars 10 (padded width n) before = 10 ^ width * before + n % 10 ^ width := by
  induction width generalizing before with
  | zero => simp [padded, Nat.mod_one]
  | succ width ih =>
    rw [padded, Nat.ofDigitChars_cons_digitChar_of_lt_ten (Nat.mod_lt _ (by decide)), ih,
      Nat.mod_pow_succ]
    ring

section
variable {xs ys : List Char}

theorem cmp_eq_lt_iff_lt : cmp xs ys = .lt ↔ xs < ys := by
  unfold cmp cmpUsing
  split
  · simp [*]
  · split <;> simp [*]

theorem cmp_eq_gt_iff_lt : cmp xs ys = .gt ↔ ys < xs := by
  unfold cmp cmpUsing
  split
  · rename_i less
    simpa using List.lt_asymm less
  · split <;> simp [*]

theorem digitChar_lt : ∀ m < 10, ∀ n < 10, m < n → m.digitChar < n.digitChar := by decide

theorem cmp_cons_self (c : Char) : cmp (c :: xs) (c :: ys) = cmp xs ys := by
  unfold cmp cmpUsing
  simp

theorem cmp_digitChar_cons {m n : Nat} (small : m < 10) (small' : n < 10) :
    cmp (m.digitChar :: xs) (n.digitChar :: ys) = (cmp m n).then (cmp xs ys) := by
  rcases lt_trichotomy m n with before | rfl | after
  · rw [(cmp_eq_lt_iff m n).mpr before]
    have chars := digitChar_lt m small n small' before
    exact cmp_eq_lt_iff_lt.mpr (List.cons_lt_cons_iff.mpr (.inl chars))
  · rw [cmp_cons_self, cmp_self_eq_eq]
    rfl
  · rw [(cmp_eq_gt_iff m n).mpr after]
    have chars := digitChar_lt n small' m small after
    exact cmp_eq_gt_iff_lt.mpr (List.cons_lt_cons_iff.mpr (.inl chars))

/-- The first digit decides, unless it is the same. -/
theorem cmp_mod_pow_succ (m n width : Nat) :
    cmp (m % 10 ^ (width + 1)) (n % 10 ^ (width + 1)) =
      (cmp (m / 10 ^ width % 10) (n / 10 ^ width % 10)).then
        (cmp (m % 10 ^ width) (n % 10 ^ width)) := by
  have small (k : Nat) : k % 10 ^ width < 10 ^ width := Nat.mod_lt k (Nat.pow_pos (by decide))
  have room {j k : Nat} (less : j < k) : 10 ^ width * j + 10 ^ width ≤ 10 ^ width * k :=
    Nat.mul_succ _ j ▸ Nat.mul_le_mul_left _ less
  rw [Nat.mod_pow_succ, Nat.mod_pow_succ]
  refine cmp_eq_then (fun less => ?_) (fun greater => ?_) fun same => ?_
  · have digits := room less
    have rest := small m
    omega
  · have digits := room greater
    have rest := small n
    omega
  · rw [same]
    exact cmp_eq_cmp (by omega) (by omega) (by omega)

/-- Fields of one width are in the order of their numbers, and what follows them decides when the
numbers are the same. -/
theorem cmp_padded_append (width m n : Nat) :
    cmp (padded width m ++ xs) (padded width n ++ ys) =
      (cmp (m % 10 ^ width) (n % 10 ^ width)).then (cmp xs ys) := by
  induction width with
  | zero =>
    rw [Nat.pow_zero, Nat.mod_one, Nat.mod_one, cmp_self_eq_eq]
    rfl
  | succ width ih =>
    have digit (k : Nat) : k / 10 ^ width % 10 < 10 := Nat.mod_lt _ (by decide)
    rw [padded, padded, List.cons_append, List.cons_append, cmp_digitChar_cons (digit m) (digit n),
      ih, cmp_mod_pow_succ, Ordering.then_assoc]

end

end Text
end JsonQuery
