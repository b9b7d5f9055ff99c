import JsonQuery.Evaluation.Operators
import JsonQuery.Proofs.Calendar.Format

/-! Comparing dates and times that are written in different formats. Texts of one time are of one
instant, whatever the format, a zone moves the instant, and texts in one format without a zone stand
in the order of their instants. -/
namespace JsonQuery

open Text (padded)

namespace Calendar

variable {d e : Date} {t u : TimeOfDay}

section
variable {xs ys : List Char}

theorem cmp_date_append (writable : Writable d t) (writable' : Writable e u) :
    cmp (d.text ++ xs) (e.text ++ ys) = (cmp d.number e.number).then (cmp xs ys) := by
  obtain ⟨year, month, day⟩ := writable.date_lt
  obtain ⟨year', month', day'⟩ := writable'.date_lt
  have years : cmp d.year.toNat e.year.toNat = cmp d.year e.year := by
    have first := writable.first
    have first' := writable'.first
    exact cmp_eq_cmp (by omega) (by omega) (by omega)
  rw [text_append, text_append, Text.cmp_padded_append, Text.cmp_cons_self, Text.cmp_padded_append,
    Text.cmp_cons_self, Text.cmp_padded_append, Nat.mod_eq_of_lt year, Nat.mod_eq_of_lt year',
    Nat.mod_eq_of_lt month, Nat.mod_eq_of_lt month', Nat.mod_eq_of_lt day, Nat.mod_eq_of_lt day',
    years, Date.cmp_number writable.date writable'.date, Ordering.then_assoc, Ordering.then_assoc]

theorem cmp_clock_append (writable : Writable d t) (writable' : Writable e u) :
    cmp (t.clock ++ xs) (u.clock ++ ys) =
      (cmp t.hour u.hour).then ((cmp t.minute u.minute).then (cmp xs ys)) := by
  obtain ⟨hour, minute, -, -⟩ := writable.time_lt
  obtain ⟨hour', minute', -, -⟩ := writable'.time_lt
  rw [clock_append, clock_append, Text.cmp_padded_append, Text.cmp_cons_self,
    Text.cmp_padded_append, Nat.mod_eq_of_lt hour, Nat.mod_eq_of_lt hour', Nat.mod_eq_of_lt minute,
    Nat.mod_eq_of_lt minute']

theorem cmp_fraction (writable : Writable d t) (writable' : Writable e u) {places : Nat}
    (few : places ≤ 9) : cmp (t.fraction places) (u.fraction places) =
      cmp (t.cut places).nanosecond (u.cut places).nanosecond := by
  obtain ⟨-, -, -, small⟩ := writable.time_lt
  obtain ⟨-, -, -, small'⟩ := writable'.time_lt
  cases places with
  | zero =>
    rw [TimeOfDay.cut, TimeOfDay.cut, Nat.div_eq_of_lt small, Nat.div_eq_of_lt small']
    rfl
  | succ places =>
    have unit : 0 < 10 ^ (9 - (places + 1)) := Nat.pow_pos (by decide)
    rw [TimeOfDay.fraction, TimeOfDay.fraction, Text.cmp_cons_self,
      ← List.append_nil (padded _ (t.nanosecond / _)),
      ← List.append_nil (padded _ (u.nanosecond / _)), Text.cmp_padded_append,
      Nat.mod_eq_of_lt (Reader.fraction_lt few small),
      Nat.mod_eq_of_lt (Reader.fraction_lt few small'),
      show cmp ([] : List Char) [] = .eq from rfl, Ordering.then_eq]
    change cmp _ _ = cmp (t.nanosecond / _ * _) (u.nanosecond / _ * _)
    refine Eq.symm (cmp_eq_cmp (fun less => ?_) (fun greater => ?_) fun same => ?_)
    · exact Nat.mul_lt_mul_of_pos_right less unit
    · exact Nat.mul_lt_mul_of_pos_right greater unit
    · rw [same]

theorem cmp_time (writable : Writable d t) (writable' : Writable e u) {places : Nat}
    (few : places ≤ 9) : cmp (t.text places) (u.text places) =
      (cmp t.hour u.hour).then ((cmp t.minute u.minute).then ((cmp t.second u.second).then
        (cmp (t.cut places).nanosecond (u.cut places).nanosecond))) := by
  obtain ⟨-, -, second, -⟩ := writable.time_lt
  obtain ⟨-, -, second', -⟩ := writable'.time_lt
  rw [TimeOfDay.text, TimeOfDay.text, cmp_clock_append writable writable', Text.cmp_cons_self,
    Text.cmp_padded_append, Nat.mod_eq_of_lt second, Nat.mod_eq_of_lt second',
    cmp_fraction writable writable' few]

end

/-- Texts in one format without a zone are in the order of what they show. -/
theorem cmp_text (writable : Writable d t) (writable' : Writable e u) {f : Format}
    (valid : f.IsValid) (zoneless : f.IsZoneless) : cmp (f.text d t) (f.text e u) =
      cmp (Instant.of d (f.shown t) 0).position (Instant.of e (f.shown u) 0).position := by
  cases f with
  | internet separator places zone => exact zoneless.elim
  | seconds separator places =>
    obtain ⟨-, few⟩ := valid
    rw [Format.text, Format.text, cmp_date_append writable writable', Text.cmp_cons_self,
      cmp_time writable writable' few, Format.shown, Format.shown,
      Instant.cmp_position (writable.cut places).time (writable'.cut places).time]
    rfl
  | minutes =>
    rw [Format.text, Format.text, cmp_date_append writable writable', Text.cmp_cons_self,
      ← List.append_nil t.clock, ← List.append_nil u.clock, cmp_clock_append writable writable',
      Format.shown, Format.shown,
      Instant.cmp_position writable.onMinute.time writable'.onMinute.time]
    rfl
  | day =>
    rw [Format.text, Format.text, ← List.append_nil d.text, ← List.append_nil e.text,
      cmp_date_append writable writable', Format.shown, Format.shown,
      Instant.cmp_position writable.midnight.time writable'.midnight.time]
    rfl

theorem visible_padded (width n : Nat) : ∀ c ∈ padded width n, Text.isBlank c = false :=
  fun _ member => Text.isBlank_of_isDigit (Text.isDigit_of_mem_padded member)

theorem visible_date (d : Date) : ∀ c ∈ d.text, Text.isBlank c = false := by
  simp only [Date.text, List.forall_mem_append, List.forall_mem_cons]
  exact ⟨visible_padded _ _, rfl, visible_padded _ _, rfl, visible_padded _ _⟩

theorem visible_clock (t : TimeOfDay) : ∀ c ∈ t.clock, Text.isBlank c = false := by
  simp only [TimeOfDay.clock, List.forall_mem_append, List.forall_mem_cons]
  exact ⟨visible_padded _ _, rfl, visible_padded _ _⟩

theorem visible_time (t : TimeOfDay) (places : Nat) :
    ∀ c ∈ t.text places, Text.isBlank c = false := by
  simp only [TimeOfDay.text, List.forall_mem_append, List.forall_mem_cons]
  refine ⟨visible_clock t, rfl, visible_padded _ _, ?_⟩
  cases places with
  | zero => exact List.forall_mem_nil _
  | succ places =>
    simp only [TimeOfDay.fraction, List.forall_mem_cons]
    exact ⟨rfl, visible_padded _ _⟩

theorem visible_zone {z : Zone} (valid : z.IsValid) : ∀ c ∈ z.text, Text.isBlank c = false := by
  cases z with
  | universal letter =>
    simp only [Zone.IsValid, List.mem_cons, List.not_mem_nil, or_false] at valid
    simp only [Zone.text, List.forall_mem_cons]
    refine ⟨?_, List.forall_mem_nil _⟩
    rcases valid with rfl | rfl <;> rfl
  | offset sign hours minutes =>
    obtain ⟨signs, -, -⟩ := valid
    simp only [Zone.text, List.forall_mem_append, List.forall_mem_cons]
    refine ⟨?_, visible_padded _ _, rfl, visible_padded _ _⟩
    simp only [List.mem_cons, List.not_mem_nil, or_false] at signs
    rcases signs with rfl | rfl | rfl <;> rfl

/-- No blank stands at either end of a text. -/
theorem trim_text {f : Format} (valid : f.IsValid) (d : Date) (t : TimeOfDay) :
    Text.trim (f.text d t) = f.text d t := by
  have date : d.text ≠ [] := List.append_ne_nil_of_right_ne_nil _ (List.cons_ne_nil _ _)
  cases f with
  | internet separator places zone =>
    have some : zone.text ≠ [] := by cases zone <;> exact List.cons_ne_nil _ _
    rw [Format.text, ← List.cons_append, ← List.append_assoc]
    exact Text.trim_between _ (visible_date d) (visible_zone valid.2.2) date some
  | seconds separator places =>
    have some : t.text places ≠ [] :=
      List.append_ne_nil_of_right_ne_nil _ (List.cons_ne_nil _ _)
    rw [Format.text, List.append_cons]
    exact Text.trim_between _ (visible_date d) (visible_time t places) date some
  | minutes =>
    have some : t.clock ≠ [] := List.append_ne_nil_of_right_ne_nil _ (List.cons_ne_nil _ _)
    rw [Format.text, List.append_cons]
    exact Text.trim_between _ (visible_date d) (visible_clock t) date some
  | day => exact Text.trim_of_visible (visible_date d)

end Calendar

namespace Evaluation
open Calendar

variable {d e : Date} {t u : TimeOfDay} {f g : Format}

/-- A text is an operand for the instant of what it shows. -/
theorem instant_spell (writable : Writable d t) (valid : f.IsValid) :
    instant (.string (f.spell d t)) = .ok (.of d (f.shown t) f.ahead) := by
  simp only [instant, Value.asString, Format.spell, String.toList_ofList, trim_text valid,
    ofText?_text writable valid]

theorem instant_surrounded {before after : List Char} (front : ∀ c ∈ before, Text.isBlank c = true)
    (back : ∀ c ∈ after, Text.isBlank c = true) (cs : List Char) :
    instant (.string (String.ofList (before ++ cs ++ after))) =
      instant (.string (String.ofList cs)) := by
  simp only [instant, Value.asString, String.toList_ofList, Text.trim_surrounded front back]

theorem binary_before {v w : Value} {i j : Instant} (left : instant v = .ok i)
    (right : instant w = .ok j) : binary .before v w = .ok (.boolean (i.isBefore j)) := by
  rw [binary, left, right]
  rfl

theorem binary_after {v w : Value} {i j : Instant} (left : instant v = .ok i)
    (right : instant w = .ok j) : binary .after v w = .ok (.boolean (j.isBefore i)) := by
  rw [binary, left, right]
  rfl

theorem of_ahead (d : Date) (t : TimeOfDay) (ahead : Int) : Instant.of d t ahead =
    ⟨(Instant.of d t 0).seconds - ahead, (Instant.of d t 0).nanoseconds⟩ := by
  simp only [Instant.of, Int.sub_zero]

/-- An instant is not before itself. -/
theorem isBefore_self (i : Instant) : i.isBefore i = false := by
  simp [Instant.isBefore]

/-- Texts in one format without a zone are in the order of their instants. -/
theorem isBefore_shown (writable : Writable d t) (writable' : Writable e u) (valid : f.IsValid)
    (zoneless : f.IsZoneless) :
    (Instant.of d (f.shown t) f.ahead).isBefore (.of e (f.shown u) f.ahead) =
      decide (f.spell d t < f.spell e u) := by
  have utc : f.ahead = 0 := by
    cases f with
    | internet => exact zoneless.elim
    | seconds | minutes | day => rfl
  have order := cmp_text writable writable' valid zoneless
  rw [Bool.eq_iff_iff, decide_eq_true_iff, String.lt_iff, Format.spell, Format.spell,
    String.toList_ofList, String.toList_ofList, ← Text.cmp_eq_lt_iff_lt, order, cmp_eq_lt_iff, utc]
  exact Instant.isBefore_iff (Instant.nanoseconds_of_lt (writable.shown f).time 0)
    (Instant.nanoseconds_of_lt (writable'.shown f).time 0)

/-- Of two dates with times. One date and time is the same instant in every format that shows all of
it in universal time. In the internet format a zone ahead of universal time makes the instant
earlier by the hours and minutes of the zone, and a zone behind makes it later. In one format
without a zone the earlier instant has the smaller text. Blanks around a text change nothing,
whatever the text. -/
theorem formats_agree (left : Writable d t) (right : Writable e u) :
    (∀ f g : Format, f.IsValid → g.IsValid → f.ahead = 0 → g.ahead = 0 →
      f.shown t = t → g.shown t = t →
        binary .before (.string (f.spell d t)) (.string (g.spell d t)) = .ok (.boolean false) ∧
        binary .after (.string (f.spell d t)) (.string (g.spell d t)) = .ok (.boolean false)) ∧
    (∀ separator ∈ ['T', 't', ' '], ∀ places ≤ 9, ∀ hours ≤ 23, ∀ minutes ≤ 59,
      let zoned (zone : Zone) : Value :=
        .string ((Format.internet separator places zone).spell d t)
      ∃ i, (∀ letter ∈ ['Z', 'z'], instant (zoned (.universal letter)) = .ok i) ∧
        instant (zoned (.offset '+' hours minutes)) =
          .ok ⟨i.seconds - (hours * 3600 + minutes * 60), i.nanoseconds⟩ ∧
        ∀ minus ∈ ['-', '−'], instant (zoned (.offset minus hours minutes)) =
          .ok ⟨i.seconds + (hours * 3600 + minutes * 60), i.nanoseconds⟩) ∧
    (∀ f : Format, f.IsValid → f.IsZoneless →
      binary .before (.string (f.spell d t)) (.string (f.spell e u)) =
        .ok (.boolean (decide (f.spell d t < f.spell e u)))) ∧
    (∀ v w x y : List Char, (∀ c ∈ v ++ w ++ x ++ y, Text.isBlank c = true) → ∀ a b : List Char,
      ∀ op ∈ [BinaryOp.before, .after],
        binary op (.string (String.ofList (v ++ a ++ w))) (.string (String.ofList (x ++ b ++ y))) =
          binary op (.string (String.ofList a)) (.string (String.ofList b))) := by
  refine ⟨?formats, ?zones, ?order, ?blanks⟩
  case formats =>
    intro f g valid valid' utc utc' whole whole'
    have first := instant_spell left valid
    have second := instant_spell left valid'
    rw [whole, utc] at first
    rw [whole', utc'] at second
    rw [binary_before first second, binary_after first second, isBefore_self]
    exact ⟨rfl, rfl⟩
  case zones =>
    intro separator separates places few hours hour minutes minute zoned
    have read (zone : Zone) (valid : zone.IsValid) :
        instant (zoned zone) = .ok (.of d (t.cut places) zone.ahead) :=
      instant_spell (f := .internet separator places zone) left ⟨separates, few, valid⟩
    refine ⟨.of d (t.cut places) 0, fun letter listed => read _ listed, ?_, fun minus listed => ?_⟩
    · have ahead : (Zone.offset '+' hours minutes).ahead = hours * 3600 + minutes * 60 := rfl
      have valid : (Zone.offset '+' hours minutes).IsValid := ⟨by decide, hour, minute⟩
      rw [read _ valid, of_ahead, ahead]
    · have behind : (Zone.offset minus hours minutes).ahead = -(hours * 3600 + minutes * 60) := by
        simp only [List.mem_cons, List.not_mem_nil, or_false] at listed
        rcases listed with rfl | rfl <;> rfl
      have valid : (Zone.offset minus hours minutes).IsValid :=
        ⟨List.mem_cons_of_mem _ listed, hour, minute⟩
      rw [read _ valid, of_ahead, behind, Int.sub_neg]
  case order =>
    intro f valid zoneless
    rw [binary_before (instant_spell left valid) (instant_spell right valid),
      isBefore_shown left right valid zoneless]
  case blanks =>
    intro v w x y blank a b op listed
    simp only [List.forall_mem_append] at blank
    obtain ⟨⟨⟨front, back⟩, front'⟩, back'⟩ := blank
    have same := instant_surrounded front back a
    have same' := instant_surrounded front' back' b
    simp only [List.mem_cons, List.not_mem_nil, or_false] at listed
    rcases listed with rfl | rfl <;> rw [binary, binary, same, same']

/-- The midnight of a leap day in four formats, a zone ahead by half an hour more than whole hours,
a leap second, and blanks of several kinds. -/
theorem formats_agree_leapDay :
    let d : Date := ⟨2024, 2, 29⟩
    let t : TimeOfDay := .midnight
    let e : Date := ⟨2024, 3, 1⟩
    let u : TimeOfDay := ⟨23, 59, 60, 250000000⟩
    Writable d t ∧ Writable e u ∧
      binary .before (.string "2024-02-29") (.string "2024-02-29T00:00:00.000+00:00") =
        .ok (.boolean false) ∧
      binary .after (.string "2024-02-29T00:00") (.string "2024-02-29 00:00:00") =
        .ok (.boolean false) ∧
      (∃ i, instant (.string "2024-02-29T00:00:00Z") = .ok i ∧
        instant (.string "2024-02-29T00:00:00+05:30") = .ok ⟨i.seconds - 19800, i.nanoseconds⟩) ∧
      binary .before (.string "2024-02-29T00:00:00.00") (.string "2024-03-01T23:59:60.25") =
        .ok (.boolean true) ∧
      binary .before (.string "\t2024-02-29") (.string " 2024-03-01\n") = .ok (.boolean true) := by
  intro d t e u
  have left : Writable d t := ⟨by decide, by decide, by decide, by decide⟩
  have right : Writable e u := ⟨by decide, by decide, by decide, by decide⟩
  obtain ⟨formats, zones, order, blanks⟩ := formats_agree left right
  have day : Format.day.spell d t = "2024-02-29" := by decide +kernel
  have day' : Format.day.spell e u = "2024-03-01" := by decide +kernel
  have minutes : Format.minutes.spell d t = "2024-02-29T00:00" := by decide +kernel
  have spaced : (Format.seconds ' ' 0).spell d t = "2024-02-29 00:00:00" := by decide +kernel
  have places : (Format.seconds 'T' 2).spell d t = "2024-02-29T00:00:00.00" := by decide +kernel
  have places' : (Format.seconds 'T' 2).spell e u = "2024-03-01T23:59:60.25" := by decide +kernel
  have zero : (Format.internet 'T' 3 (.offset '+' 0 0)).spell d t =
      "2024-02-29T00:00:00.000+00:00" := by decide +kernel
  have zulu : (Format.internet 'T' 0 (.universal 'Z')).spell d t = "2024-02-29T00:00:00Z" := by
    decide +kernel
  have ahead : (Format.internet 'T' 0 (.offset '+' 5 30)).spell d t =
      "2024-02-29T00:00:00+05:30" := by decide +kernel
  have whole (places : Nat) : t.cut places = t := TimeOfDay.cut_eq_self_iff.mpr (Nat.dvd_zero _)
  have first := formats .day (.internet 'T' 3 (.offset '+' 0 0)) trivial
    ⟨by decide, by decide, by decide, by decide, by decide⟩ rfl rfl rfl (whole 3)
  have second := formats .minutes (.seconds ' ' 0) trivial ⟨by decide, by decide⟩ rfl rfl rfl
    (whole 0)
  obtain ⟨i, zulus, plus, -⟩ := zones 'T' (by decide) 0 (by decide) 5 (by decide) 30 (by decide)
  have third := order (.seconds 'T' 2) ⟨by decide, by decide⟩ trivial
  have fourth := blanks ['\t'] [] [' '] ['\n'] (List.all_eq_true.mp rfl) "2024-02-29".toList
    "2024-03-01".toList .before (by decide)
  have days := order .day trivial trivial
  rw [day, zero] at first
  rw [minutes, spaced] at second
  rw [places, places'] at third
  rw [day, day'] at days
  refine ⟨left, right, first.1, second.2, ⟨i, ?_, ?_⟩, ?_, ?_⟩
  · rw [← zulu]
    exact zulus 'Z' (by decide)
  · rw [← ahead]
    exact plus
  · exact third
  · exact fourth.trans days

end Evaluation
end JsonQuery
