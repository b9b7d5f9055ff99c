import JsonQuery.Calendar.Read
import JsonQuery.Proofs.Calendar.Order
import JsonQuery.Proofs.Text.Digits
import JsonQuery.Proofs.Text.Trimming

/-! Writing dates and times in fields of fixed width, in every format in which they are read. Each
text is read as the instant of what it shows: the formats without a zone, the zone of universal
time and a zone behind or ahead of it. No format that is tried before takes the text for something
else. -/
namespace JsonQuery

open Text (padded)

def Date.text (d : Date) : List Char :=
  padded 4 d.year.toNat ++ '-' :: (padded 2 d.month ++ '-' :: padded 2 d.day)

namespace TimeOfDay

def clock (t : TimeOfDay) : List Char := padded 2 t.hour ++ ':' :: padded 2 t.minute

/-- The first digits of a fraction of a second, after a point, or nothing at all. -/
def fraction (places : Nat) (t : TimeOfDay) : List Char :=
  match places with
  | 0 => []
  | places + 1 => '.' :: padded (places + 1) (t.nanosecond / 10 ^ (9 - (places + 1)))

def text (places : Nat) (t : TimeOfDay) : List Char :=
  t.clock ++ ':' :: (padded 2 t.second ++ t.fraction places)

/-- What is left of a time when some digits of its fraction are written. -/
def cut (places : Nat) (t : TimeOfDay) : TimeOfDay :=
  { t with nanosecond := t.nanosecond / 10 ^ (9 - places) * 10 ^ (9 - places) }

/-- Nothing is lost of a fraction that ends in zeros after its first places. -/
theorem cut_eq_self_iff {t : TimeOfDay} {places : Nat} :
    t.cut places = t ↔ 10 ^ (9 - places) ∣ t.nanosecond := by
  constructor
  · intro whole
    exact Dvd.intro_left _ (congrArg nanosecond whole)
  · intro zeros
    rw [cut, Nat.div_mul_cancel zeros]

end TimeOfDay

namespace Calendar

/-- A zone: a letter for universal time, or hours and minutes after a sign. -/
inductive Zone where
  | universal (letter : Char)
  | offset (sign : Char) (hours minutes : Nat)

namespace Zone

def text : Zone → List Char
  | universal letter => [letter]
  | offset sign hours minutes => sign :: (padded 2 hours ++ ':' :: padded 2 minutes)

def ahead : Zone → Int
  | universal _ => 0
  | offset sign hours minutes =>
    if sign = '+' then (hours * 3600 + minutes * 60 : Nat) else -(hours * 3600 + minutes * 60 : Nat)

def IsValid : Zone → Prop
  | universal letter => letter ∈ ['Z', 'z']
  | offset sign hours minutes => sign ∈ ['+', '-', '−'] ∧ hours ≤ 23 ∧ minutes ≤ 59

end Zone

/-- The formats: the internet format, which ends with a zone, and those without a zone, with
seconds, with minutes only and with the day only. -/
inductive Format where
  | internet (separator : Char) (places : Nat) (zone : Zone)
  | seconds (separator : Char) (places : Nat)
  | minutes
  | day

namespace Format

def text (f : Format) (d : Date) (t : TimeOfDay) : List Char :=
  match f with
  | internet separator places zone => d.text ++ separator :: (t.text places ++ zone.text)
  | seconds separator places => d.text ++ separator :: t.text places
  | minutes => d.text ++ 'T' :: t.clock
  | day => d.text

def shown (f : Format) (t : TimeOfDay) : TimeOfDay :=
  match f with
  | internet _ places _ | seconds _ places => t.cut places
  | minutes => ⟨t.hour, t.minute, 0, 0⟩
  | day => .midnight

def ahead : Format → Int
  | internet _ _ zone => zone.ahead
  | _ => 0

def IsValid : Format → Prop
  | internet separator places zone => separator ∈ ['T', 't', ' '] ∧ places ≤ 9 ∧ zone.IsValid
  | seconds separator places => separator ∈ ['T', ' '] ∧ places ≤ 9
  | minutes | day => True

def IsZoneless : Format → Prop
  | internet _ _ _ => False
  | _ => True

def spell (f : Format) (d : Date) (t : TimeOfDay) : String := String.ofList (f.text d t)

end Format

namespace Reader

variable {α β : Type} {r : Reader α} {f : α → Reader β} {a : α} {cs rest : List Char}

theorem bind_of_eq_some (h : r cs = some (a, rest)) : (r >>= f) cs = f a rest := by
  change (r cs).bind _ = _
  rw [h]
  rfl

theorem bind_of_eq_none (h : r cs = none) : (r >>= f) cs = none := by
  change (r cs).bind _ = _
  rw [h]
  rfl

theorem pure_eq (a : α) (cs : List Char) : (pure a : Reader α) cs = some (a, cs) := rfl

theorem whole?_of_eq_some (h : r cs = some (a, [])) : r.whole? cs = some a := by
  rw [whole?, h]

theorem whole?_of_eq_none (h : r cs = none) : r.whole? cs = none := by
  rw [whole?, h]

theorem natural_padded {least width n : Nat} (few : least ≤ width) (small : n < 10 ^ width)
    (rest : List Char) : natural least width (padded width n ++ rest) = some (n, rest) := by
  have taken : ((padded width n ++ rest).take width).takeWhile Char.isDigit = padded width n := by
    rw [List.take_left' (Text.length_padded width n), List.takeWhile_eq_self_iff]
    exact fun c member => Text.isDigit_of_mem_padded member
  have read : digits least width (padded width n ++ rest) = some (padded width n, rest) := by
    simp only [digits, taken, Text.length_padded, if_neg (Nat.not_lt.mpr few),
      List.drop_left' (Text.length_padded width n)]
  rw [natural, bind_of_eq_some read, pure_eq, Text.ofDigitChars_padded, Nat.mod_eq_of_lt small,
    Nat.mul_zero, Nat.zero_add]

theorem oneOf_cons {allowed : List Char} {c : Char} (member : c ∈ allowed) (rest : List Char) :
    oneOf allowed (c :: rest) = some (c, rest) := by
  simp only [oneOf, List.contains_iff_mem.mpr member, if_true]

theorem oneOf_of_not_mem {allowed : List Char} {c : Char} (other : c ∉ allowed) (rest : List Char) :
    oneOf allowed (c :: rest) = none := by
  simp only [oneOf, List.contains_iff_mem, other, if_false]

theorem char_cons (c : Char) (rest : List Char) : char c (c :: rest) = some ((), rest) := by
  rw [char, bind_of_eq_some (oneOf_cons (List.mem_singleton_self c) rest), pure_eq]

theorem char_nil (c : Char) : char c [] = none := by
  rw [char, bind_of_eq_none rfl]

theorem blanks_eq (visible : ∀ c ∈ cs.head?, Text.isBlank c = false) :
    blanks cs = some ((), cs) := by
  rw [blanks, Text.dropWhile_isBlank visible]

/-- The digits of a fraction that are written fit into their places. -/
theorem fraction_lt {n places : Nat} (few : places ≤ 9) (small : n < 10 ^ 9) :
    n / 10 ^ (9 - places) < 10 ^ places := by
  apply Nat.div_lt_of_lt_mul
  rwa [← Nat.pow_add, Nat.sub_add_cancel few]

/-- A point and digits are read as nanoseconds, and so is nothing at all. -/
theorem fraction_eq {t : TimeOfDay} {places : Nat} (few : places ≤ 9)
    (small : t.nanosecond < 10 ^ 9) (stops : ∀ c ∈ rest.head?, c.isDigit = false ∧ c ≠ '.') :
    fraction (t.fraction places ++ rest) = some ((t.cut places).nanosecond, rest) := by
  cases places with
  | zero =>
    have cut : (t.cut 0).nanosecond = 0 := by
      rw [TimeOfDay.cut, Nat.div_eq_of_lt small, Nat.zero_mul]
    rw [TimeOfDay.fraction, cut, List.nil_append, fraction.eq_def]
    split
    · exact absurd rfl (stops '.' rfl).2
    · rfl
  | succ places =>
    obtain ⟨found, left⟩ := Text.span_append
      (fun c member => Text.isDigit_of_mem_padded member) fun c member => (stops c member).1
    change decimals (padded (places + 1) _ ++ rest) = _
    rw [decimals, found, left]
    simp only [padded]
    rw [← padded, List.take_of_length_le (by rwa [Text.length_padded]), Text.length_padded,
      Text.ofDigitChars_padded, Nat.mod_eq_of_lt (fraction_lt few small), Nat.mul_zero,
      Nat.zero_add]
    rfl

theorem blanks_padded (width n : Nat) (rest : List Char) :
    blanks (padded (width + 1) n ++ rest) = some ((), padded (width + 1) n ++ rest) := by
  obtain ⟨c, others, start, digit⟩ := Text.exists_padded_append width n rest
  rw [start]
  exact blanks_eq fun d first => Option.some.inj first ▸ Text.isBlank_of_isDigit digit

theorem field_padded {n : Nat} (small : n < 10 ^ 2) (rest : List Char) :
    field (padded 2 n ++ rest) = some (n, rest) := by
  rw [field, bind_of_eq_some (blanks_padded 1 n rest), natural_padded (by decide) small]

/-- A year that begins with a digit has no sign. -/
theorem year_padded {n : Nat} (small : n < 10 ^ 4) (rest : List Char) :
    year (padded 4 n ++ rest) = some ((n : Int), rest) := by
  obtain ⟨c, others, start, digit⟩ := Text.exists_padded_append 3 n rest
  rw [year, bind_of_eq_some (blanks_padded 3 n rest)]
  split
  · rename_i sign
    rw [start] at sign
    cases sign
    cases digit
  · rename_i sign
    rw [start] at sign
    cases sign
    cases digit
  · rw [natural_padded (by decide) small]
    rfl

theorem date_of_isValid {d : Date} (valid : d.isValid = true) (cs : List Char) :
    date d.year d.month d.day cs = some (d, cs) := by
  rw [date, if_pos valid, pure_eq]

theorem time_of_isValid {t : TimeOfDay} (valid : t.isValid = true) (cs : List Char) :
    time t.hour t.minute t.second t.nanosecond cs = some (t, cs) := by
  rw [time, if_pos valid, pure_eq]

end Reader

/-- A date and a time of day that fit into fields of fixed width. -/
structure Writable (d : Date) (t : TimeOfDay) : Prop where
  date : d.isValid = true
  first : 0 ≤ d.year
  last : d.year ≤ 9999
  time : t.isValid = true

namespace Writable

variable {d : Date} {t : TimeOfDay}

/-- The fields of a date fit. -/
theorem date_lt (writable : Writable d t) :
    d.year.toNat < 10 ^ 4 ∧ d.month < 10 ^ 2 ∧ d.day < 10 ^ 2 := by
  obtain ⟨-, month, -, day⟩ := Date.bounds_of_isValid writable.date
  have days := Date.daysInMonth_le d.year d.month
  have last := writable.last
  omega

/-- The fields of a time fit. -/
theorem time_lt (writable : Writable d t) :
    t.hour < 10 ^ 2 ∧ t.minute < 10 ^ 2 ∧ t.second < 10 ^ 2 ∧ t.nanosecond < 10 ^ 9 := by
  obtain ⟨hour, minute, second, nanosecond⟩ := TimeOfDay.bounds_of_isValid writable.time
  omega

theorem cast_year (writable : Writable d t) : (d.year.toNat : Int) = d.year :=
  Int.toNat_of_nonneg writable.first

/-- Leaving out digits of the fraction, seconds or all of the time leaves a time of day. -/
theorem cut (writable : Writable d t) (places : Nat) : Writable d (t.cut places) := by
  refine { writable with time := decide_eq_true ?_ }
  obtain ⟨hour, minute, second, nanosecond⟩ := TimeOfDay.bounds_of_isValid writable.time
  exact ⟨hour, minute, second, (Nat.div_mul_le_self _ _).trans nanosecond⟩

theorem onMinute (writable : Writable d t) : Writable d ⟨t.hour, t.minute, 0, 0⟩ := by
  refine { writable with time := decide_eq_true ?_ }
  obtain ⟨hour, minute, -, -⟩ := TimeOfDay.bounds_of_isValid writable.time
  exact ⟨hour, minute, Nat.zero_le _, Nat.zero_le _⟩

theorem midnight (writable : Writable d t) : Writable d .midnight :=
  { writable with time := rfl }

theorem shown (writable : Writable d t) (f : Format) : Writable d (f.shown t) := by
  cases f with
  | internet _ places _ | seconds _ places => exact writable.cut places
  | minutes => exact writable.onMinute
  | day => exact writable.midnight

end Writable

section
open Reader

variable {d : Date} {t : TimeOfDay} {places : Nat} {rest : List Char}

theorem text_append (d : Date) (rest : List Char) : d.text ++ rest =
    padded 4 d.year.toNat ++ '-' :: (padded 2 d.month ++ '-' :: (padded 2 d.day ++ rest)) := by
  rw [Date.text, List.append_assoc, List.cons_append, List.append_assoc, List.cons_append]

theorem clock_append (t : TimeOfDay) (rest : List Char) :
    t.clock ++ rest = padded 2 t.hour ++ ':' :: (padded 2 t.minute ++ rest) := by
  rw [TimeOfDay.clock, List.append_assoc, List.cons_append]

theorem time_append (places : Nat) (t : TimeOfDay) (rest : List Char) : t.text places ++ rest =
    t.clock ++ ':' :: (padded 2 t.second ++ (t.fraction places ++ rest)) := by
  rw [TimeOfDay.text, List.append_assoc, List.cons_append, List.append_assoc]

theorem internetDay_text (writable : Writable d t) (rest : List Char) :
    internetDay (d.text ++ rest) = some (d, rest) := by
  obtain ⟨year, month, day⟩ := writable.date_lt
  rw [text_append, internetDay, bind_of_eq_some (natural_padded (by decide) year _),
    bind_of_eq_some (char_cons _ _), bind_of_eq_some (natural_padded (by decide) month _),
    bind_of_eq_some (char_cons _ _), bind_of_eq_some (natural_padded (by decide) day _),
    writable.cast_year, date_of_isValid writable.date]

theorem day_text (writable : Writable d t) (rest : List Char) :
    day (d.text ++ rest) = some (d, rest) := by
  obtain ⟨year, month, day⟩ := writable.date_lt
  rw [text_append, Calendar.day, bind_of_eq_some (year_padded year _),
    bind_of_eq_some (char_cons _ _), bind_of_eq_some (field_padded month _),
    bind_of_eq_some (char_cons _ _), bind_of_eq_some (field_padded day _),
    writable.cast_year, date_of_isValid writable.date]

theorem clock_text (writable : Writable d t) (rest : List Char) :
    clock (t.clock ++ rest) = some ((t.hour, t.minute), rest) := by
  obtain ⟨hour, minute, -, -⟩ := writable.time_lt
  rw [clock_append, clock, bind_of_eq_some (field_padded hour _), bind_of_eq_some (char_cons _ _),
    bind_of_eq_some (field_padded minute _), pure_eq]

theorem internetTime_text (writable : Writable d t) (few : places ≤ 9)
    (stops : ∀ c ∈ rest.head?, c.isDigit = false ∧ c ≠ '.') :
    internetTime (t.text places ++ rest) = some (t.cut places, rest) := by
  obtain ⟨hour, minute, second, nanosecond⟩ := writable.time_lt
  rw [time_append, clock_append, internetTime,
    bind_of_eq_some (natural_padded (by decide) hour _), bind_of_eq_some (char_cons _ _),
    bind_of_eq_some (natural_padded (by decide) minute _), bind_of_eq_some (char_cons _ _),
    bind_of_eq_some (natural_padded (by decide) second _),
    bind_of_eq_some (fraction_eq few nanosecond stops)]
  exact time_of_isValid (writable.cut places).time rest

theorem fullClock_text (writable : Writable d t) (few : places ≤ 9) :
    fullClock (t.text places) = some (t.cut places, []) := by
  obtain ⟨-, -, second, nanosecond⟩ := writable.time_lt
  rw [← List.append_nil (t.text places), time_append, fullClock,
    bind_of_eq_some (clock_text writable _)]
  dsimp only
  rw [bind_of_eq_some (char_cons _ _), bind_of_eq_some (field_padded second _),
    bind_of_eq_some (fraction_eq few nanosecond (by simp))]
  exact time_of_isValid (writable.cut places).time []

theorem shortClock_text (writable : Writable d t) :
    shortClock t.clock = some (⟨t.hour, t.minute, 0, 0⟩, []) := by
  rw [← List.append_nil t.clock, shortClock, bind_of_eq_some (clock_text writable _)]
  exact time_of_isValid writable.onMinute.time []

theorem zone_text {z : Zone} (valid : z.IsValid) : zone z.text = some (z.ahead, []) := by
  cases z with
  | universal letter =>
    simp only [Zone.IsValid, List.mem_cons, List.not_mem_nil, or_false] at valid
    rcases valid with rfl | rfl <;> rfl
  | offset sign hours minutes =>
    obtain ⟨signs, hour, minute⟩ := valid
    have few : ¬(23 < hours ∨ 59 < minutes) := by omega
    have marks : (sign == 'Z' || sign == 'z') = false := by
      simp only [List.mem_cons, List.not_mem_nil, or_false] at signs
      rcases signs with rfl | rfl | rfl <;> rfl
    have listed : sign ∈ ['Z', 'z', '+', '-', '−'] := by
      simp only [List.mem_cons] at signs ⊢
      exact .inr (.inr signs)
    rw [Zone.text, ← List.append_nil (padded 2 minutes), zone,
      bind_of_eq_some (oneOf_cons listed _), marks, if_neg (by decide),
      bind_of_eq_some (natural_padded (by decide) (by omega) _), bind_of_eq_some (char_cons _ _),
      bind_of_eq_some (natural_padded (by decide) (by omega) _), if_neg few]
    simp only [pure_eq, beq_iff_eq, Zone.ahead]

/-- A zone does not go on with a fraction. -/
theorem zone_stops {z : Zone} (valid : z.IsValid) :
    ∀ c ∈ z.text.head?, c.isDigit = false ∧ c ≠ '.' := by
  intro c first
  cases z with
  | universal letter =>
    cases first
    simp only [Zone.IsValid, List.mem_cons, List.not_mem_nil, or_false] at valid
    rcases valid with rfl | rfl <;> decide
  | offset sign hours minutes =>
    cases first
    obtain ⟨signs, -, -⟩ := valid
    simp only [List.mem_cons, List.not_mem_nil, or_false] at signs
    rcases signs with rfl | rfl | rfl <;> decide

/-! ### Texts that a reader does not take -/

theorem internetTime_clock (writable : Writable d t) : internetTime t.clock = none := by
  obtain ⟨hour, minute, -, -⟩ := writable.time_lt
  rw [← List.append_nil t.clock, clock_append, internetTime,
    bind_of_eq_some (natural_padded (by decide) hour _), bind_of_eq_some (char_cons _ _),
    bind_of_eq_some (natural_padded (by decide) minute _), bind_of_eq_none (char_nil ':')]

theorem fullClock_clock (writable : Writable d t) : fullClock t.clock = none := by
  rw [← List.append_nil t.clock, fullClock, bind_of_eq_some (clock_text writable _)]
  dsimp only
  rw [bind_of_eq_none (char_nil ':')]

theorem internet_eq_none (writable : Writable d t) {cs : List Char}
    (fails : ∀ c rest, cs = c :: rest →
      (internetTime >>= fun t => zone >>= fun ahead => pure (Instant.of d t ahead)) rest = none) :
    internet (d.text ++ cs) = none := by
  rw [internet, bind_of_eq_some (internetDay_text writable cs)]
  cases cs with
  | nil => rw [bind_of_eq_none rfl]
  | cons c rest =>
    by_cases separates : c ∈ ['T', 't', ' ']
    · rw [bind_of_eq_some (oneOf_cons separates rest), fails c rest rfl]
    · rw [bind_of_eq_none (oneOf_of_not_mem separates rest)]

theorem joined_eq_none {separator : Reader Unit} {timeOfDay : Reader TimeOfDay} {cs : List Char}
    (writable : Writable d t)
    (fails : ∀ rest, separator cs = some ((), rest) → timeOfDay rest = none) :
    joined separator timeOfDay (d.text ++ cs) = none := by
  rw [joined, bind_of_eq_some (day_text writable cs)]
  cases separated : separator cs with
  | none => rw [bind_of_eq_none separated]
  | some found => rw [bind_of_eq_some separated, bind_of_eq_none (fails _ separated)]

theorem internet_eq_some (writable : Writable d t) {separator : Char} {z : Zone} (few : places ≤ 9)
    (separates : separator ∈ ['T', 't', ' ']) (valid : z.IsValid) :
    internet (d.text ++ separator :: (t.text places ++ z.text)) =
      some (.of d (t.cut places) z.ahead, []) := by
  rw [internet, bind_of_eq_some (internetDay_text writable _),
    bind_of_eq_some (oneOf_cons separates _),
    bind_of_eq_some (internetTime_text writable few (zone_stops valid)),
    bind_of_eq_some (zone_text valid), pure_eq]

theorem joined_eq_some {separator : Reader Unit} {timeOfDay : Reader TimeOfDay} {u : TimeOfDay}
    {cs : List Char} (writable : Writable d t) (separates : separator cs = some ((), rest))
    (read : timeOfDay rest = some (u, [])) :
    joined separator timeOfDay (d.text ++ cs) = some (.of d u 0, []) := by
  rw [joined, bind_of_eq_some (day_text writable cs), bind_of_eq_some separates,
    bind_of_eq_some read, pure_eq]

theorem midnight_eq_some (writable : Writable d t) :
    midnight d.text = some (.of d .midnight 0, []) := by
  rw [← List.append_nil d.text, midnight, bind_of_eq_some (day_text writable []), pure_eq]

theorem blanks_time (t : TimeOfDay) (places : Nat) :
    blanks (' ' :: t.text places) = some ((), t.text places) := by
  have time := blanks_padded 1 t.hour (':' :: (padded 2 t.minute ++
    ':' :: (padded 2 t.second ++ t.fraction places)))
  rw [← clock_append, ← TimeOfDay.text] at time
  exact time

/-- A text without a zone is not in the internet format. -/
theorem internet_seconds (writable : Writable d t) (separator : Char) (few : places ≤ 9) :
    internet (d.text ++ separator :: t.text places) = none := by
  refine internet_eq_none writable fun c rest parts => ?_
  obtain ⟨-, rfl⟩ := List.cons.inj parts
  rw [← List.append_nil (t.text places), bind_of_eq_some (internetTime_text writable few (by simp)),
    bind_of_eq_none rfl]

/-- A text is read as the instant of what it shows. -/
theorem ofText?_text (writable : Writable d t) {f : Format} (valid : f.IsValid) :
    Instant.ofText? (f.text d t) = some (.of d (f.shown t) f.ahead) := by
  cases f with
  | internet separator places z =>
    obtain ⟨separates, few, zoned⟩ := valid
    have found := whole?_of_eq_some (internet_eq_some writable few separates zoned)
    simp only [Instant.ofText?, List.findSome?_cons, Format.text, found, Format.shown, Format.ahead]
  | seconds separator places =>
    obtain ⟨separates, few⟩ := valid
    have zoned := whole?_of_eq_none (internet_seconds writable separator few)
    have read := fullClock_text writable few
    simp only [List.mem_cons, List.not_mem_nil, or_false] at separates
    rcases separates with rfl | rfl
    · have found := whole?_of_eq_some (joined_eq_some writable (char_cons 'T' _) read)
      simp only [Instant.ofText?, zoneless, List.findSome?_cons, Format.text, zoned, found,
        Format.shown, Format.ahead]
    · have lettered :
          (joined (char 'T') fullClock).whole? (d.text ++ ' ' :: t.text places) = none :=
        whole?_of_eq_none (joined_eq_none writable nofun)
      have found := whole?_of_eq_some (joined_eq_some writable (blanks_time t places) read)
      simp only [Instant.ofText?, zoneless, List.findSome?_cons, Format.text, zoned, lettered,
        found, Format.shown, Format.ahead]
  | minutes =>
    have zoned : internet.whole? (d.text ++ 'T' :: t.clock) = none := by
      refine whole?_of_eq_none (internet_eq_none writable fun c rest parts => ?_)
      obtain ⟨-, rfl⟩ := List.cons.inj parts
      rw [bind_of_eq_none (internetTime_clock writable)]
    have lettered : (joined (char 'T') fullClock).whole? (d.text ++ 'T' :: t.clock) = none := by
      refine whole?_of_eq_none (joined_eq_none writable fun rest separated => ?_)
      cases separated
      exact fullClock_clock writable
    have spaced : (joined blanks fullClock).whole? (d.text ++ 'T' :: t.clock) = none := by
      refine whole?_of_eq_none (joined_eq_none writable fun rest separated => ?_)
      cases separated
      rfl
    have found := whole?_of_eq_some
      (joined_eq_some writable (char_cons 'T' t.clock) (shortClock_text writable))
    simp only [Instant.ofText?, zoneless, List.findSome?_cons, Format.text, zoned, lettered, spaced,
      found, Format.shown, Format.ahead]
  | day =>
    have zoned : internet.whole? d.text = none := by
      rw [← List.append_nil d.text]
      exact whole?_of_eq_none (internet_eq_none writable nofun)
    have lettered (timeOfDay : Reader TimeOfDay) :
        (joined (char 'T') timeOfDay).whole? d.text = none := by
      rw [← List.append_nil d.text]
      exact whole?_of_eq_none (joined_eq_none writable nofun)
    have spaced : (joined blanks fullClock).whole? d.text = none := by
      rw [← List.append_nil d.text]
      refine whole?_of_eq_none (joined_eq_none writable fun rest separated => ?_)
      cases separated
      rfl
    have found := whole?_of_eq_some (midnight_eq_some writable)
    simp only [Instant.ofText?, zoneless, List.findSome?_cons, Format.text, zoned, lettered, spaced,
      found, Format.shown, Format.ahead]

end

end Calendar
end JsonQuery
