import JsonQuery.Calendar.Instant
import JsonQuery.Text.Basic

/-! Instants in text. The internet format has fields of fixed width and a zone. The other formats
are in universal time, and their fields may be shorter and have blanks in front. -/
namespace JsonQuery.Calendar

/-- A reader takes the start of a text and gives what it read and the remainder. -/
abbrev Reader (α : Type) := List Char → Option (α × List Char)

def Reader.bind {α β : Type} (r : Reader α) (next : α → Reader β) : Reader β := fun cs =>
  (r cs).bind fun (a, rest) => next a rest

instance : Monad Reader where
  pure a := fun cs => some (a, cs)
  bind := Reader.bind

namespace Reader

def fail {α : Type} : Reader α := fun _ => none

/-- As many digits as there are, up to a greatest number, and no fewer than a least. -/
def digits (least greatest : Nat) : Reader (List Char) := fun cs =>
  let found := (cs.take greatest).takeWhile Char.isDigit
  if found.length < least then none else some (found, cs.drop found.length)

def natural (least greatest : Nat) : Reader Nat := do
  return Nat.ofDigitChars 10 (← digits least greatest) 0

def oneOf (allowed : List Char) : Reader Char
  | c :: rest => if allowed.contains c then some (c, rest) else none
  | [] => none

def char (c : Char) : Reader Unit := do let _ ← oneOf [c]

def blanks : Reader Unit := fun cs => some ((), cs.dropWhile Text.isBlank)

/-- A point and digits, of which nine count. -/
def decimals : Reader Nat := fun cs =>
  match cs.takeWhile Char.isDigit with
  | [] => none
  | found =>
    let counted := found.take 9
    some (Nat.ofDigitChars 10 counted 0 * Nat.pow 10 (9 - counted.length),
      cs.dropWhile Char.isDigit)

def fraction : Reader Nat
  | '.' :: rest => decimals rest
  | cs => some (0, cs)

def whole? {α : Type} (r : Reader α) (cs : List Char) : Option α :=
  match r cs with
  | some (a, []) => some a
  | _ => none

end Reader

open Reader

def date (year : Int) (month day : Nat) : Reader Date :=
  let d : Date := ⟨year, month, day⟩
  if d.isValid then pure d else fail

def time (hour minute second nanosecond : Nat) : Reader TimeOfDay :=
  let t : TimeOfDay := ⟨hour, minute, second, nanosecond⟩
  if t.isValid then pure t else fail

/-- The zone of an internet time, in seconds ahead of universal time. -/
def zone : Reader Int := do
  let sign ← oneOf ['Z', 'z', '+', '-', '−']
  if sign == 'Z' || sign == 'z' then return 0
  let hours ← natural 2 2
  char ':'
  let minutes ← natural 2 2
  if 23 < hours ∨ 59 < minutes then fail
  let ahead : Int := (hours * 3600 + minutes * 60 : Nat)
  return if sign == '+' then ahead else -ahead

def internetDay : Reader Date := do
  let year ← natural 4 4
  char '-'
  let month ← natural 2 2
  char '-'
  let day ← natural 2 2
  date year month day

def internetTime : Reader TimeOfDay := do
  let hour ← natural 2 2
  char ':'
  let minute ← natural 2 2
  char ':'
  let second ← natural 2 2
  time hour minute second (← fraction)

/-- A date and time of the internet format, with a letter or one space between them. -/
def internet : Reader Instant := do
  let d ← internetDay
  let _ ← oneOf ['T', 't', ' ']
  let t ← internetTime
  return .of d t (← zone)

/-- A field of one or two digits. -/
def field : Reader Nat := do
  blanks
  natural 1 2

/-- A year of up to four digits, or of any number of digits after a sign. -/
def year : Reader Int := do
  blanks
  fun cs => match cs with
    | '-' :: rest => (natural 1 rest.length rest).map fun (n, rest) => (-(n : Int), rest)
    | '+' :: rest => (natural 1 rest.length rest).map fun (n, rest) => ((n : Int), rest)
    | cs => (natural 1 4 cs).map fun (n, rest) => ((n : Int), rest)

def day : Reader Date := do
  let y ← year
  char '-'
  let m ← field
  char '-'
  let d ← field
  date y m d

def clock : Reader (Nat × Nat) := do
  let hour ← field
  char ':'
  let minute ← field
  return (hour, minute)

def fullClock : Reader TimeOfDay := do
  let (hour, minute) ← clock
  char ':'
  let second ← field
  time hour minute second (← fraction)

/-- Hours and minutes of a time on the minute. -/
def shortClock : Reader TimeOfDay := do
  let (hour, minute) ← clock
  time hour minute 0 0

/-- A day and a time with a separator between them, in universal time. -/
def joined (separator : Reader Unit) (timeOfDay : Reader TimeOfDay) : Reader Instant := do
  let d ← day
  separator
  return .of d (← timeOfDay) 0

/-- A day alone, which is its midnight. -/
def midnight : Reader Instant := do return .of (← day) .midnight 0

def zoneless : List (Reader Instant) :=
  [joined (char 'T') fullClock, joined blanks fullClock, joined (char 'T') shortClock, midnight]

end JsonQuery.Calendar

namespace JsonQuery.Instant

/-- Reads a text in the first format that fits the whole of it. -/
def ofText? (cs : List Char) : Option Instant :=
  (Calendar.internet :: Calendar.zoneless).findSome? (·.whole? cs)

end JsonQuery.Instant
