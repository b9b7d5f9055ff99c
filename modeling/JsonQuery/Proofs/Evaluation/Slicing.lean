import JsonQuery.Proofs.Evaluation.Indexing
import JsonQuery.Proofs.Interpretation.Places
import JsonQuery.Proofs.Parse.Numeral

/-! What texts of slices give. The text of a slice is evaluated to the elements between the places
of its bounds, whether the bounds are spelled out or not, and slices that meet make up the value
again. -/
namespace JsonQuery

namespace Text

theorem startsWith_append (part after : List Char) : startsWith (part ++ after) part = true :=
  List.isPrefixOf_iff_prefix.mpr (List.prefix_append part after)

theorem endsWith_append (before part : List Char) : endsWith (before ++ part) part = true :=
  List.isSuffixOf_iff_suffix.mpr (List.suffix_append before part)

theorem contains_append (before part after : List Char) :
    contains (before ++ part ++ after) part = true := by
  induction before with
  | nil =>
    have starts := startsWith_append part after
    rw [List.nil_append]
    unfold contains
    split
    · rename_i none
      rw [(List.append_eq_nil_iff.mp none).1]
      rfl
    · rw [starts, Bool.true_or]
  | cons c before ih =>
    rw [List.cons_append, List.cons_append, contains, ih, Bool.or_true]

end Text

namespace Evaluation

open Parse

variable {o : Options} {ambient object r : Value} {kind : Kind} {es : List Value}
  {x y : Float} {e : Expr} {source source' first last : String}

/-- The value of an expression does not depend on places. -/
theorem run_plain_eq_ok_iff : run o e.plain ambient = .ok r ↔ run o e ambient = .ok r :=
  (Interpretation.agree_mapSpan (interpretation_ignoresPlaces o) _ e ambient).eq_ok_iff.symm

/-- A text is accepted and gives a value, under every cap above the number of its tokens. -/
def Gives (o : Options) (source : String) (ambient r : Value) : Prop :=
  ∀ cap, (Scan.of source).tokens.length < cap →
    ∃ e, Expr.parse source cap = .ok e ∧ run o e ambient = .ok r

theorem gives_iff {x : Expr} (accepts : ∀ cap, (Scan.of source).tokens.length < cap →
    ∃ e, Expr.parse source cap = .ok e ∧ e.plain = x) :
    Gives o source ambient r ↔ run o x ambient = .ok r := by
  constructor
  · intro gives
    obtain ⟨e, accepted, ran⟩ := gives _ (Nat.lt_succ_self _)
    obtain ⟨e', accepted', rfl⟩ := accepts _ (Nat.lt_succ_self _)
    cases accepted.symm.trans accepted'
    exact run_plain_eq_ok_iff.mpr ran
  · intro ran cap room
    obtain ⟨e, accepted, rfl⟩ := accepts cap room
    exact ⟨e, accepted, run_plain_eq_ok_iff.mp ran⟩

/-- A text that is read as an operand with a certain value. -/
def Denotes (o : Options) (ambient : Value) (source : String) (v : Value) : Prop :=
  ∃ x, TextReadsAs source x ∧ run o x ambient = .ok v

/-- A text of a bound with a certain value, or an omitted bound and what stands for it. -/
def Bounds (o : Options) (ambient : Value) (omitted : Float) (source : String) (x : Float) : Prop :=
  ∃ a, BoundText omitted source a ∧ run o a ambient = .ok (.number x)

theorem bounds_omitted (omitted : Float) : Bounds o ambient omitted "" omitted :=
  ⟨_, .omitted, rfl⟩

theorem bounds_repr (omitted : Float) (n : Nat) :
    Bounds o ambient omitted n.repr (Number.ofNat n) :=
  ⟨_, (operandText_repr n).boundText omitted, rfl⟩

/-- The value of an operator between two texts. -/
theorem Denotes.joined {left right : Value} {op : BinaryOp} (first : Denotes o ambient source left)
    (second : Denotes o ambient source' right) (made : binary op left right = .ok r) :
    Gives o (joined op source source') ambient r := by
  obtain ⟨x, reads, ran⟩ := first
  obtain ⟨y, reads', ran'⟩ := second
  refine (gives_iff fun cap room => reads.parse_joined reads' room).mpr ?_
  exact Interpretation.meaning_binary_eq_ok.mpr ⟨left, ran, right, ran', made⟩

section Slices

variable (sequence : object.ConsistsOf kind es) (found : Denotes o ambient source object)
include sequence found

/-- A slice is read as an operand, and its value is what the bounds cut out. -/
theorem exists_reads_sliced (start : Bounds o ambient (Number.ofNat 0) first x)
    (stop : Bounds o ambient (Number.ofInt (-1)) last y) :
    ∃ e, TextReadsAs (sliced source first last) e ∧
      ∀ r, run o e ambient = .ok r ↔ Cuts kind es x y r := by
  obtain ⟨e, reads, ran⟩ := found
  obtain ⟨a, text, left⟩ := start
  obtain ⟨b, text', right⟩ := stop
  refine ⟨_, reads.slice text text', fun r => ?_⟩
  rw [run_index_eq_ok_iff ran (run_slice_eq_ok left right)]
  exact index_pair_eq_ok_iff sequence

theorem gives_sliced_iff (start : Bounds o ambient (Number.ofNat 0) first x)
    (stop : Bounds o ambient (Number.ofInt (-1)) last y) :
    Gives o (sliced source first last) ambient r ↔ Cuts kind es x y r := by
  obtain ⟨e, reads, cuts⟩ := exists_reads_sliced sequence found start stop
  exact (gives_iff fun cap room => reads.parse room).trans (cuts r)

theorem denotes_sliced (start : Bounds o ambient (Number.ofNat 0) first x)
    (stop : Bounds o ambient (Number.ofInt (-1)) last y) (cut : Cuts kind es x y r) :
    Denotes o ambient (sliced source first last) r := by
  obtain ⟨e, reads, cuts⟩ := exists_reads_sliced sequence found start stop
  exact ⟨e, reads, (cuts r).mpr cut⟩

end Slices

/-- Between places that are in order and in range there is a slice. -/
theorem exists_cuts {i j : Nat} (sequence : object.ConsistsOf kind es)
    (start : position x es.length = i) (stop : position y es.length = j) (ordered : i ≤ j)
    (inside : j < es.length) : ∃ r, Cuts kind es x y r ∧ r.ConsistsOf kind (between i j es) := by
  have places : InRange x es.length ∧ InRange y es.length ∧
      position x es.length ≤ position y es.length := by
    unfold InRange
    omega
  obtain ⟨r, made⟩ := (exists_index_pair_iff sequence).mpr places
  have cuts : Cuts kind es x y r := (index_pair_eq_ok_iff sequence).mp made
  refine ⟨r, cuts, ?_⟩
  obtain ⟨i', j', start', stop', -, -, consists⟩ := cuts
  rw [start, Int.natCast_inj] at start'
  rw [stop, Int.natCast_inj] at stop'
  rwa [start', stop']

/-- What stands for an omitted last bound is the last place. -/
theorem position_last {n : Nat} (some : 0 < n) :
    position (Number.ofInt (-1)) n = (n - 1 : Nat) := by
  have last := position_ofInt_neg (by decide) Nat.one_pos n
  rw [Int.natCast_one] at last
  rw [last]
  omega

theorem between_first (j : Nat) (es : List Value) : between 0 j es = es.take (j + 1) := rfl

theorem between_last {j : Nat} (last : j + 1 = es.length) (i : Nat) :
    between i j es = es.drop i := by
  rw [between, last, List.take_length]

section Parts

variable {k : Nat} (sequence : object.ConsistsOf kind es)
include sequence

/-- A slice up to a place and the slice from the next place on make up the whole. -/
theorem sum_cuts (stop : position y es.length = k) (start : position x es.length = k + 1)
    (inside : k + 1 < es.length) :
    ∃ left right, Cuts kind es (Number.ofNat 0) y left ∧ Cuts kind es x (Number.ofInt (-1)) right ∧
      sum left right = .ok object := by
  obtain ⟨left, cuts, front⟩ := exists_cuts sequence (position_ofNat (by decide) es.length) stop
    (Nat.zero_le k) (Nat.lt_of_succ_lt inside)
  have final := position_last (Nat.zero_lt_of_lt inside)
  obtain ⟨right, cuts', back⟩ :=
    exists_cuts sequence (i := k + 1) start final (by omega) (by omega)
  obtain ⟨r, made, whole⟩ := front.sum back
  refine ⟨left, right, cuts, cuts', ?_⟩
  rw [between_first, between_last (by omega), List.take_append_drop] at whole
  rw [made, whole.unique sequence]

theorem cuts_whole (some : es ≠ []) :
    Cuts kind es (Number.ofNat 0) (Number.ofInt (-1)) object := by
  have positive := List.length_pos_iff.mpr some
  refine ⟨0, es.length - 1, position_ofNat (by decide) _, position_last positive, Nat.zero_le _,
    Nat.sub_one_lt_of_lt positive, ?_⟩
  rwa [between_first, Nat.sub_add_cancel positive, List.take_length]

end Parts

/-- A slice of a string occurs in it, at its start if it begins with the first character, and at its
end if it ends with the last one. -/
theorem tests_of_cuts (sequence : object.ConsistsOf .string es) (cuts : Cuts .string es x y r) :
    binary .contains object r = .ok (.boolean true) ∧
      (position x es.length = 0 → binary .startsWith object r = .ok (.boolean true)) ∧
      (position y es.length = es.length - 1 →
        binary .endsWith object r = .ok (.boolean true)) := by
  obtain ⟨s, rfl⟩ : ∃ s, object = .string s := by
    cases object with
    | string s => exact ⟨s, rfl⟩
    | _ => cases sequence.1
  obtain ⟨i, j, start, stop, ordered, inside, consists⟩ := cuts
  obtain rfl := Option.some.inj sequence.2
  have part := Value.ConsistsOf.toList_of_between consists
  rw [List.length_map] at start stop inside ⊢
  have front := List.take_append_drop (j + 1) s.toList
  have back := List.take_append_drop i (s.toList.take (j + 1))
  rw [← part] at back
  have holds {b : Bool} (h : b = true) :
      (.ok (.boolean b) : Except RuntimeError Value) = .ok (.boolean true) := by rw [h]
  refine ⟨?_, fun first => ?_, fun last => ?_⟩
  · rw [← back] at front
    have occurs := Text.contains_append ((s.toList.take (j + 1)).take i) r.asString.toList
      (s.toList.drop (j + 1))
    rw [front] at occurs
    exact holds occurs
  · obtain rfl : i = 0 := by omega
    rw [List.drop_zero] at part
    rw [← part] at front
    have starts := Text.startsWith_append r.asString.toList (s.toList.drop (j + 1))
    rw [front] at starts
    exact holds starts
  · have all : j + 1 = s.toList.length := by omega
    rw [all, List.take_length] at back
    have ends := Text.endsWith_append (s.toList.take i) r.asString.toList
    rw [back] at ends
    exact holds ends

/-- A place is given by two numbers, in the form of a slice or of an array of them. -/
def GivesPair (o : Options) (ambient : Value) (place : Expr) (x y : Float) : Prop :=
  (∃ first last span, place = .slice first last span ∧
    run o first ambient = .ok (.number x) ∧ run o last ambient = .ok (.number y)) ∨
  run o place ambient = .ok (.array [.number x, .number y])

theorem GivesPair.run_eq_ok {place : Expr} (h : GivesPair o ambient place x y) :
    run o place ambient = .ok (.array [.number x, .number y]) := by
  rcases h with ⟨first, last, span, rfl, start, stop⟩ | pair
  · exact run_slice_eq_ok start stop
  · exact pair

/-- Indexing by a number gives the element at its place and by two numbers the elements between
their places, of a value of the same kind, whenever the places are in range and in order, and
otherwise nothing. The places are computed without overflow. As texts, slices can leave out their
bounds; slices that meet make up the whole, and a string contains its slices. -/
theorem bounds_agree (o : Options) (ambient object : Value) (kind : Kind) (es : List Value)
    (sequence : object.ConsistsOf kind es) :
    (∀ e place x span, run o e ambient = .ok object → run o place ambient = .ok (.number x) →
      (∀ r, run o (.index e place span) ambient = .ok r ↔
        ∃ k : Nat, position x es.length = k ∧ es[k]? = some r) ∧
      ((∃ r, run o (.index e place span) ambient = .ok r) ↔ InRange x es.length)) ∧
    (∀ e place x y span, run o e ambient = .ok object → GivesPair o ambient place x y →
      (∀ r, run o (.index e place span) ambient = .ok r ↔ Cuts kind es x y r) ∧
      ((∃ r, run o (.index e place span) ambient = .ok r) ↔
        InRange x es.length ∧ InRange y es.length ∧
          position x es.length ≤ position y es.length)) ∧
    (es.length < 2 ^ 63 → ∀ x, Number.InWord (Number.integerPart x) ∧ Number.InWord es.length ∧
      Number.InWord (position x es.length) ∧
      (wordPosition x es.length).toInt = position x es.length) ∧
    ∀ source e, OperandText source e → run o e ambient = .ok object →
      (∀ first last x y, Bounds o ambient (Number.ofNat 0) first x →
        Bounds o ambient (Number.ofInt (-1)) last y →
        ∀ r, Gives o (sliced source first last) ambient r ↔ Cuts kind es x y r) ∧
      (es ≠ [] → Gives o (sliced source "" "") ambient object) ∧
      (∀ first last x y (k : Nat), Bounds o ambient (Number.ofNat 0) first x →
        Bounds o ambient (Number.ofInt (-1)) last y → position y es.length = k →
        position x es.length = k + 1 → k + 1 < es.length →
        Gives o (joined (.arithmetic .add) (sliced source "" last) (sliced source first ""))
          ambient object) ∧
      (∀ k : Nat, k + 1 < es.length → k + 1 < 2 ^ 53 →
        Gives o (joined (.arithmetic .add) (sliced source "" k.repr)
          (sliced source (k + 1).repr "")) ambient object) ∧
      (kind = .string → ∀ first last x y r, Bounds o ambient (Number.ofNat 0) first x →
        Bounds o ambient (Number.ofInt (-1)) last y → Cuts kind es x y r →
        Gives o (joined .contains source (sliced source first last)) ambient (.boolean true) ∧
        (position x es.length = 0 →
          Gives o (joined .startsWith source (sliced source first last)) ambient
            (.boolean true)) ∧
        (position y es.length = es.length - 1 →
          Gives o (joined .endsWith source (sliced source first last)) ambient
            (.boolean true))) := by
  refine ⟨?elements, ?slices, ?words, fun source e text found => ?texts⟩
  case elements =>
    intro e place x span found placed
    simp only [run_index_eq_ok_iff found placed]
    exact ⟨fun r => index_number_eq_ok_iff sequence, exists_index_number_iff sequence⟩
  case slices =>
    intro e place x y span found pair
    simp only [run_index_eq_ok_iff found pair.run_eq_ok]
    exact ⟨fun r => index_pair_eq_ok_iff sequence, exists_index_pair_iff sequence⟩
  case words =>
    intro small x
    exact ⟨Number.inWord_integerPart x, inWord_natCast small, inWord_position x small,
      toInt_wordPosition x small⟩
  case texts =>
    have denotes : Denotes o ambient source object := ⟨e, text.reads, found⟩
    have rejoined {first last : String} {x y : Float} {k : Nat}
        (start : Bounds o ambient (Number.ofNat 0) first x)
        (stop : Bounds o ambient (Number.ofInt (-1)) last y) (here : position y es.length = k)
        (next : position x es.length = k + 1) (inside : k + 1 < es.length) :
        Gives o (joined (.arithmetic .add) (sliced source "" last) (sliced source first ""))
          ambient object := by
      obtain ⟨left, right, front, back, made⟩ := sum_cuts sequence here next inside
      exact (denotes_sliced sequence denotes (bounds_omitted _) stop front).joined
        (denotes_sliced sequence denotes start (bounds_omitted _) back) made
    refine ⟨?_, ?_, ?_, ?_, ?_⟩
    · intro first last x y start stop r
      exact gives_sliced_iff sequence denotes start stop
    · intro some
      exact (gives_sliced_iff sequence denotes (bounds_omitted _) (bounds_omitted _)).mpr
        (cuts_whole sequence some)
    · intro first last x y k start stop here next inside
      exact rejoined start stop here next inside
    · intro k inside small
      exact rejoined (bounds_repr _ _) (bounds_repr _ _)
        (position_ofNat (Nat.lt_of_succ_lt small) _) (position_ofNat small _) inside
    · rintro rfl first last x y r start stop cuts
      have slice := denotes_sliced sequence denotes start stop cuts
      obtain ⟨contained, starts, ends⟩ := tests_of_cuts sequence cuts
      exact ⟨denotes.joined slice contained, fun zero => denotes.joined slice (starts zero),
        fun final => denotes.joined slice (ends final)⟩

/-- Characters of one to four bytes, places from both ends and an array of two places. -/
theorem bounds_agree_characters :
    let text : Value := .string "aé😀b"
    let characters : List Value := [.string "a", .string "é", .string "😀", .string "b"]
    let pair : Value := .array [.number (Number.ofNat 1), .number (Number.ofInt (-2))]
    let ambient : Value := .object [("s", text), ("p", pair)]
    let o : Options := ⟨true, false⟩
    let s : Expr := .identifier "s" ⟨0, 0⟩
    text.ConsistsOf .string characters ∧
      run o (.index s (.literal (.number (Number.ofInt (-2))) ⟨0, 0⟩) ⟨0, 0⟩) ambient =
        .ok (.string "😀") ∧
      run o (.index s (.identifier "p" ⟨0, 0⟩) ⟨0, 0⟩) ambient = .ok (.string "é😀") ∧
      (wordPosition (Number.ofInt (-2)) 4).toInt = 2 ∧
      OperandText "s" s ∧ Gives o "s[1:2]" ambient (.string "é😀") ∧ Gives o "s[:]" ambient text ∧
      Gives o "s[:1] + s[-2:]" ambient text ∧ Gives o "s[:1] + s[2:]" ambient text ∧
      Gives o "s contains s[1:2]" ambient (.boolean true) ∧
      Gives o "s startsWith s[:1]" ambient (.boolean true) ∧
      Gives o "s endsWith s[-2:]" ambient (.boolean true) := by
  intro text characters pair ambient o s
  have consists : text.ConsistsOf .string characters := ⟨rfl, by with_unfolding_all rfl⟩
  have spelled : OperandText "s" s := by
    refine .identifier ⟨?_, ⟨.eof, "", ⟨1, 0⟩⟩, ?_⟩ <;> with_unfolding_all rfl
  have found : run o s ambient = .ok text := rfl
  have placed : run o (.literal (.number (Number.ofInt (-2))) ⟨0, 0⟩) ambient =
      .ok (.number (Number.ofInt (-2))) := rfl
  have paired : GivesPair o ambient (.identifier "p" ⟨0, 0⟩) (Number.ofNat 1) (Number.ofInt (-2)) :=
    .inr rfl
  have first : position (Number.ofNat 0) 4 = (0 : Nat) := position_ofNat (by decide) 4
  have second : position (Number.ofNat 1) 4 = (1 : Nat) := position_ofNat (by decide) 4
  have third : position (Number.ofNat 2) 4 = (2 : Nat) := position_ofNat (by decide) 4
  have last : position (Number.ofInt (-1)) 4 = (3 : Nat) := position_last (by decide)
  have beforeLast : position (Number.ofInt (-2)) 4 = (2 : Nat) :=
    position_ofInt_neg (by decide) (by decide) 4
  have fromEnd : position (-Number.ofNat 2) 4 = (2 : Nat) := by
    have part : Number.toInt64 (-Number.ofNat 2) = -2 := by decide +kernel
    rw [position, ← Number.toInt64_eq_integerPart, part]
    rfl
  have one (omitted : Float) : Bounds o ambient omitted "1" (Number.ofNat 1) :=
    bounds_repr omitted 1
  have signed : Bounds o ambient (Number.ofNat 0) "-2" (-Number.ofNat 2) :=
    ⟨_, (operandText_repr 2).boundText_signed .minus _, rfl⟩
  have middle : Cuts .string characters (Number.ofNat 1) (Number.ofNat 2) (.string "é😀") :=
    ⟨1, 2, second, third, by decide, by decide, rfl, by with_unfolding_all rfl⟩
  obtain ⟨elements, slices, words, texts⟩ :=
    bounds_agree o ambient text .string characters consists
  obtain ⟨bounded, whole, meeting, rejoined, tests⟩ := texts "s" s spelled found
  have inside := tests rfl "1" "2" _ _ _ (one _) (bounds_repr _ 2) middle
  have front := tests rfl "" "1" _ _ (.string "aé") (bounds_omitted _) (one _)
    ⟨0, 1, first, second, by decide, by decide, rfl, by with_unfolding_all rfl⟩
  have back := tests rfl "-2" "" _ _ (.string "😀b") signed (bounds_omitted _)
    ⟨2, 3, fromEnd, last, by decide, by decide, rfl, by with_unfolding_all rfl⟩
  refine ⟨consists, ((elements s _ _ _ found placed).1 _).mpr ⟨2, beforeLast, rfl⟩,
    ((slices s _ _ _ _ found paired).1 _).mpr
      ⟨1, 2, second, beforeLast, by decide, by decide, rfl, by with_unfolding_all rfl⟩,
    ((words (by decide) _).2.2.2).trans beforeLast, spelled,
    (bounded "1" "2" _ _ (one _) (bounds_repr _ 2) _).mpr middle, whole (by decide),
    meeting "-2" "1" _ _ 1 signed (one _) second fromEnd (by decide),
    rejoined 1 (by decide) (by decide), inside.1, front.2.1 first, back.2.2 last⟩

end Evaluation
end JsonQuery
