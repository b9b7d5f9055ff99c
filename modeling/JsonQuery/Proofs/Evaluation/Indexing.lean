import JsonQuery.Evaluation.Run
import JsonQuery.Proofs.Interpretation.Visit
import JsonQuery.Proofs.Number.IntegerPart

/-! Elements and slices. Arrays and strings are alike in what can be taken from them: both have
elements, a number stands for a place among them, and of values of one kind the elements are all
there is to know. -/
namespace JsonQuery

/-- The items of an array, and the characters of a string as strings of their own. -/
def Value.elements? : Value → Option (List Value)
  | .array items => some items
  | .string s => some (s.toList.map fun c => .string (String.ofList [c]))
  | _ => none

/-- The place that a number stands for among a number of elements, which may not be one of them. -/
def position (x : Float) (length : Nat) : Int :=
  if Number.integerPart x < 0 then Number.integerPart x + length else Number.integerPart x

theorem position_ofNat {k : Nat} (small : k < 2 ^ 53) (n : Nat) :
    position (Number.ofNat k) n = k := by
  rw [position, Number.integerPart_ofNat small, if_neg (Int.not_lt.mpr (Int.natCast_nonneg k))]

/-- Negative integers count from the end. -/
theorem position_ofInt_neg {k : Nat} (small : k < 2 ^ 53) (some : 0 < k) (n : Nat) :
    position (Number.ofInt (-k)) n = n - k := by
  rw [position, Number.integerPart_ofInt (by simpa using small), if_pos (by omega)]
  omega

def InRange (x : Float) (length : Nat) : Prop := 0 ≤ position x length ∧ position x length < length

/-- The same place, computed with integers of 64 bits, which wrap around. -/
def wordPosition (x : Float) (length : Nat) : Int64 :=
  let part := Int64.ofInt (Number.toInt64 x)
  if part < 0 then part + Int64.ofNat length else part

section Words

open Number

variable {x : Float} {n : Nat}

theorem toInt_ofInt_of_inWord {i : Int} (within : InWord i) : (Int64.ofInt i).toInt = i :=
  Int64.toInt_ofInt_of_le within.1 within.2

theorem inWord_natCast (small : n < 2 ^ 63) : InWord n := by
  unfold InWord
  omega

theorem inWord_position (x : Float) (small : n < 2 ^ 63) : InWord (position x n) := by
  have part := inWord_integerPart x
  unfold InWord at part ⊢
  unfold position
  split <;> omega

/-- No step leaves the range, so nothing wraps around. -/
theorem toInt_wordPosition (x : Float) (small : n < 2 ^ 63) :
    (wordPosition x n).toInt = position x n := by
  have whole := toInt_ofInt_of_inWord (inWord_integerPart x)
  have negative : Int64.ofInt (integerPart x) < 0 ↔ integerPart x < 0 := by
    rw [Int64.lt_iff_toInt_lt, whole]
    rfl
  have place := inWord_position x small
  unfold wordPosition
  unfold position at place ⊢
  rw [toInt64_eq_integerPart]
  dsimp only
  by_cases below : integerPart x < 0
  · rw [if_pos below] at place
    rw [if_pos below, if_pos (negative.mpr below), ← Int64.ofInt_eq_ofNat, ← Int64.ofInt_add,
      toInt_ofInt_of_inWord place]
  · rw [if_neg below, if_neg (negative.not.mpr below), whole]

end Words

namespace Sequence

variable {s : Sequence} {x first last : Float} {n k : Nat} {v r : Value}

def elements : Sequence → List Value
  | characters cs => cs.map fun c => .string (String.ofList [c])
  | items vs => vs

@[simp] theorem elements?_toValue (s : Sequence) : s.toValue.elements? = some s.elements := by
  cases s <;> simp [toValue, Value.elements?, elements]

@[simp] theorem length_elements (s : Sequence) : s.elements.length = s.length := by
  cases s <;> simp [elements, length]

@[simp] theorem element?_eq (s : Sequence) (k : Nat) : s.element? k = s.elements[k]? := by
  cases s <;> simp [element?, elements]

@[simp] theorem elements_extract (s : Sequence) (k count : Nat) :
    (s.extract k count).elements = (s.elements.drop k).take count := by
  cases s <;> simp [extract, elements]

@[simp] theorem kind_extract (s : Sequence) (k count : Nat) :
    (s.extract k count).toValue.kind = s.toValue.kind := by
  cases s <;> rfl

/-- The values that have elements are the sequences. -/
theorem ofValue?_of_elements? {es : List Value} (h : v.elements? = some es) :
    ∃ s, ofValue? v = some s ∧ s.toValue = v ∧ s.elements = es := by
  cases v with
  | string t => exact ⟨.characters t.toList, rfl, by simp [toValue], Option.some.inj h⟩
  | array items => exact ⟨.items items, rfl, rfl, Option.some.inj h⟩
  | _ => cases h

theorem place?_eq_some_iff : place? x n = some k ↔ position x n = k ∧ k < n := by
  unfold place? position
  dsimp only
  rw [Number.toInt64_eq_integerPart]
  generalize (if Number.integerPart x < 0 then Number.integerPart x + n
    else Number.integerPart x) = place
  simp only [Option.ite_none_right_eq_some, Option.some.injEq]
  omega

theorem place_eq_ok_iff : place x n = .ok k ↔ position x n = k ∧ k < n := by
  rw [← place?_eq_some_iff]
  unfold place
  split <;> simp_all

theorem elementAt_eq_ok_iff :
    s.elementAt x = .ok r ↔ ∃ k : Nat, position x s.length = k ∧ s.elements[k]? = some r := by
  have found : s.elementAt x = .ok r ↔ (place? x s.length).bind s.element? = some r := by
    unfold elementAt
    cases (place? x s.length).bind s.element? <;> simp
  simp only [found, Option.bind_eq_some_iff, place?_eq_some_iff, element?_eq]
  refine exists_congr fun k => ⟨fun ⟨⟨place, _⟩, at_k⟩ => ⟨place, at_k⟩, fun ⟨place, at_k⟩ => ?_⟩
  have inside := (List.getElem?_eq_some_iff.mp at_k).1
  rw [length_elements] at inside
  exact ⟨⟨place, inside⟩, at_k⟩

theorem sliceAt_eq_ok_iff : s.sliceAt first last = .ok r ↔ ∃ i j : Nat,
    position first s.length = i ∧ position last s.length = j ∧ i ≤ j ∧ j < s.length ∧
      (s.extract i (j - i + 1)).toValue = r := by
  unfold sliceAt
  simp only [bind_eq_ok, place_eq_ok_iff]
  constructor
  · rintro ⟨i, ⟨start, _⟩, j, ⟨stop, inside⟩, made⟩
    split at made
    · cases made
    · rename_i ordered
      exact ⟨i, j, start, stop, Nat.le_of_not_lt ordered, inside, Except.ok.inj made⟩
  · rintro ⟨i, j, start, stop, ordered, inside, rfl⟩
    refine ⟨i, ⟨start, Nat.lt_of_le_of_lt ordered inside⟩, j, ⟨stop, inside⟩, ?_⟩
    rw [if_neg (Nat.not_lt.mpr ordered)]

end Sequence

/-- A value has a kind and these elements. -/
def Value.ConsistsOf (kind : Kind) (es : List Value) (v : Value) : Prop :=
  v.kind = kind ∧ v.elements? = some es

def between (i j : Nat) (es : List Value) : List Value := (es.take (j + 1)).drop i

def Cuts (kind : Kind) (es : List Value) (x y : Float) (r : Value) : Prop :=
  ∃ i j : Nat, position x es.length = i ∧ position y es.length = j ∧ i ≤ j ∧ j < es.length ∧
    r.ConsistsOf kind (between i j es)

namespace Value.ConsistsOf

variable {kind : Kind} {es xs ys : List Value} {v w : Value}

/-- Two values of one kind with the same elements are the same. -/
theorem unique (left : v.ConsistsOf kind es) (right : w.ConsistsOf kind es) : v = w := by
  have same := left.1.trans right.1.symm
  have elements := left.2.trans right.2.symm
  cases v with
  | string s =>
    cases w with
    | string t =>
      have injective : Function.Injective fun c : Char => Value.string (String.ofList [c]) := by
        intro c d h
        simpa using congrArg String.toList (Value.string.inj h)
      have characters := injective.list_map (Option.some.inj elements)
      exact congrArg Value.string (String.toList_inj.mp characters)
    | _ => cases same
  | array vs =>
    cases w with
    | array ws => exact congrArg Value.array (Option.some.inj elements)
    | _ => cases same
  | _ => cases left.2

/-- A sum of two values of one kind has the elements of both. -/
theorem sum (left : v.ConsistsOf kind xs) (right : w.ConsistsOf kind ys) :
    ∃ r, Evaluation.sum v w = .ok r ∧ r.ConsistsOf kind (xs ++ ys) := by
  obtain ⟨rfl, found⟩ := left
  obtain ⟨same, found'⟩ := right
  cases v with
  | string s =>
    cases w with
    | string t =>
      obtain rfl := Option.some.inj found
      obtain rfl := Option.some.inj found'
      exact ⟨.string (s ++ t), rfl, rfl, by simp [elements?]⟩
    | _ => cases same
  | array vs =>
    cases w with
    | array ws =>
      obtain rfl := Option.some.inj found
      obtain rfl := Option.some.inj found'
      exact ⟨.array (vs ++ ws), rfl, rfl, rfl⟩
    | _ => cases same
  | _ => cases found

/-- A slice of a string is a part of its text. -/
theorem toList_of_between {s : String} {i j : Nat}
    (h : w.ConsistsOf .string (between i j (s.toList.map fun c => .string (String.ofList [c])))) :
    w.asString.toList = (s.toList.take (j + 1)).drop i := by
  have made : (Value.string (String.ofList ((s.toList.take (j + 1)).drop i))).ConsistsOf .string
      (between i j (s.toList.map fun c => .string (String.ofList [c]))) := by
    refine ⟨rfl, ?_⟩
    simp [elements?, between, List.map_drop, List.map_take]
  rw [h.unique made]
  exact String.toList_ofList

end Value.ConsistsOf

namespace Evaluation

variable {o : Options} {ambient object r : Value} {kind : Kind} {es : List Value}
  {x y : Float} {e place first last : Expr} {span : Span}

theorem index_number {s : Sequence} (found : Sequence.ofValue? object = some s) :
    index object (.number x) = s.elementAt x := by
  unfold index
  rw [found]

theorem index_pair {s : Sequence} (found : Sequence.ofValue? object = some s) :
    index object (.array [.number x, .number y]) = s.sliceAt x y := by
  unfold index
  rw [found]

theorem index_number_eq_ok_iff (sequence : object.ConsistsOf kind es) :
    index object (.number x) = .ok r ↔
      ∃ k : Nat, position x es.length = k ∧ es[k]? = some r := by
  obtain ⟨s, found, -, rfl⟩ := Sequence.ofValue?_of_elements? sequence.2
  rw [index_number found, Sequence.length_elements]
  exact Sequence.elementAt_eq_ok_iff

theorem exists_index_number_iff (sequence : object.ConsistsOf kind es) :
    (∃ r, index object (.number x) = .ok r) ↔ InRange x es.length := by
  simp only [index_number_eq_ok_iff sequence]
  constructor
  · rintro ⟨r, k, place, found⟩
    have inside := (List.getElem?_eq_some_iff.mp found).1
    unfold InRange
    omega
  · rintro ⟨low, high⟩
    have inside : (position x es.length).toNat < es.length := by omega
    exact ⟨_, _, (Int.toNat_of_nonneg low).symm, List.getElem?_eq_getElem inside⟩

theorem index_pair_eq_ok_iff (sequence : object.ConsistsOf kind es) :
    index object (.array [.number x, .number y]) = .ok r ↔ Cuts kind es x y r := by
  obtain ⟨rfl, elements⟩ := sequence
  obtain ⟨s, found, rfl, rfl⟩ := Sequence.ofValue?_of_elements? elements
  rw [index_pair found, Cuts, Sequence.length_elements]
  refine Sequence.sliceAt_eq_ok_iff.trans (exists_congr fun i => exists_congr fun j => ?_)
  refine and_congr_right fun _ => and_congr_right fun _ => and_congr_right fun ordered =>
    and_congr_right fun _ => ?_
  have made : (s.extract i (j - i + 1)).toValue.ConsistsOf s.toValue.kind
      (between i j s.elements) := by
    refine ⟨by simp, ?_⟩
    have count : j - i + 1 = j + 1 - i := by omega
    simp [between, List.drop_take, count]
  exact ⟨fun same => same ▸ made, fun same => made.unique same⟩

theorem exists_index_pair_iff (sequence : object.ConsistsOf kind es) :
    (∃ r, index object (.array [.number x, .number y]) = .ok r) ↔
      InRange x es.length ∧ InRange y es.length ∧
        position x es.length ≤ position y es.length := by
  constructor
  · rintro ⟨r, made⟩
    obtain ⟨i, j, start, stop, ordered, inside, -⟩ := (index_pair_eq_ok_iff sequence).mp made
    unfold InRange
    omega
  · rintro ⟨⟨low, _⟩, ⟨_, inside⟩, ordered⟩
    obtain ⟨rfl, elements⟩ := sequence
    obtain ⟨s, found, -, rfl⟩ := Sequence.ofValue?_of_elements? elements
    rw [Sequence.length_elements] at low inside ordered
    rw [index_pair found]
    exact ⟨_, Sequence.sliceAt_eq_ok_iff.mpr ⟨(position x s.length).toNat,
      (position y s.length).toNat, by omega, by omega, by omega, by omega, rfl⟩⟩

/-- The meaning of an index depends on the two values only. -/
theorem run_index_eq_ok_iff {v p : Value} (found : run o e ambient = .ok v)
    (placed : run o place ambient = .ok p) :
    run o (.index e place span) ambient = .ok r ↔ index v p = .ok r := by
  refine Interpretation.meaning_index_eq_ok.trans ⟨?_, fun made => ?_⟩
  · rintro ⟨v', found', -, p', placed', made⟩
    cases found.symm.trans found'
    cases placed.symm.trans placed'
    exact made
  · refine ⟨v, found, ?_, p, placed, made⟩
    change indexable v = .ok ()
    unfold index at made
    unfold indexable
    cases sequence : Sequence.ofValue? v with
    | none =>
      rw [sequence] at made
      cases made
    | some s => rfl

theorem run_slice_eq_ok (start : run o first ambient = .ok (.number x))
    (stop : run o last ambient = .ok (.number y)) :
    run o (.slice first last span) ambient = .ok (.array [.number x, .number y]) :=
  Interpretation.meaning_slice_eq_ok.mpr ⟨_, start, _, stop, rfl⟩

end Evaluation
end JsonQuery
