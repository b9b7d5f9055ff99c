import JsonQuery.Json.Numeral

/-! The tokens of JSON text. A token is read at the start of a text and takes at least one
character off it. -/
namespace JsonQuery.Json

inductive Token where
  | openArray
  | closeArray
  | openObject
  | closeObject
  | comma
  | colon
  | scalar (j : Json)
  | string (s : String)

def isSpace (c : Char) : Bool := c == ' ' || c == '\t' || c == '\n' || c == '\r'

def hexDigit? (c : Char) : Option Nat :=
  if c.isDigit then some (c.toNat - '0'.toNat)
  else if 'a' ≤ c ∧ c ≤ 'f' then some (c.toNat - 'a'.toNat + 10)
  else if 'A' ≤ c ∧ c ≤ 'F' then some (c.toNat - 'A'.toNat + 10)
  else none

def hex? (a b c d : Char) : Option Nat := do
  return ((← hexDigit? a) * 16 + (← hexDigit? b)) * 256 + (← hexDigit? c) * 16 + (← hexDigit? d)

def shortEscape? : Char → Option Char
  | '"' => some '"'
  | '\\' => some '\\'
  | '/' => some '/'
  | 'b' => some '\x08'
  | 'f' => some '\x0c'
  | 'n' => some '\n'
  | 'r' => some '\r'
  | 't' => some '\t'
  | _ => none

def isHighSurrogate (n : Nat) : Bool := decide (0xD800 ≤ n ∧ n < 0xDC00)

def isLowSurrogate (n : Nat) : Bool := decide (0xDC00 ≤ n ∧ n < 0xE000)

def ofSurrogates (high low : Nat) : Char :=
  Char.ofNat (0x10000 + (high - 0xD800) * 0x400 + (low - 0xDC00))

/-- The character that begins with a given escaped code, and what follows it. A high surrogate needs
a low one right after it, and a low surrogate never comes first. -/
def ofCode? (n : Nat) (rest : List Char) : Option (Char × List Char) :=
  if isHighSurrogate n then
    match rest with
    | '\\' :: 'u' :: a :: b :: c :: d :: rest =>
      (hex? a b c d).bind fun m =>
        if isLowSurrogate m then some (ofSurrogates n m, rest) else none
    | _ => none
  else if isLowSurrogate n then none
  else some (Char.ofNat n, rest)

/-- One character of the content of a string, and what follows it. Quotes, backslashes and control
characters have to be escaped. -/
def character? : List Char → Option (Char × List Char)
  | [] => none
  | '\\' :: 'u' :: a :: b :: c :: d :: rest => (hex? a b c d).bind fun n => ofCode? n rest
  | '\\' :: e :: rest => (shortEscape? e).map fun c => (c, rest)
  | c :: rest => if c == '"' || c == '\\' || c.toNat < 0x20 then none else some (c, rest)

theorem length_ofCode?_le {n : Nat} {cs rest : List Char} {c : Char}
    (h : ofCode? n cs = some (c, rest)) : rest.length ≤ cs.length := by
  unfold ofCode? at h
  split at h
  · split at h
    · obtain ⟨m, _, hm⟩ := Option.bind_eq_some_iff.1 h
      simp only [Option.ite_none_right_eq_some, Option.some.injEq, Prod.mk.injEq] at hm
      obtain ⟨_, _, rfl⟩ := hm
      simp only [List.length_cons]
      omega
    · cases h
  · simp only [Option.ite_none_left_eq_some, Option.some.injEq, Prod.mk.injEq] at h
    obtain ⟨_, _, rfl⟩ := h
    exact Nat.le_refl _

theorem length_character?_lt {cs rest : List Char} {c : Char}
    (h : character? cs = some (c, rest)) : rest.length < cs.length := by
  unfold character? at h
  split at h
  · cases h
  · obtain ⟨n, _, hn⟩ := Option.bind_eq_some_iff.1 h
    have := length_ofCode?_le hn
    simp only [List.length_cons]
    omega
  · obtain ⟨_, _, hc⟩ := Option.map_eq_some_iff.1 h
    cases hc
    simp only [List.length_cons]
    omega
  · split at h <;> cases h
    exact Nat.lt_succ_self _

def content? (cs : List Char) : Option (List Char × List Char) :=
  if cs.head? = some '"' then some ([], cs.tail)
  else match h : character? cs with
    | none => none
    | some (c, rest) =>
      have := length_character?_lt h
      (content? rest).map fun (text, rest) => (c :: text, rest)
termination_by cs.length

/-- Number texts are read to the end of what could belong to them. -/
def isNumeral (c : Char) : Bool :=
  c.isDigit || c == '-' || c == '+' || c == '.' || c == 'e' || c == 'E'

def Token.read? (c : Char) (rest : List Char) : Option (Token × List Char) :=
  match c, rest with
  | '[', rest => some (.openArray, rest)
  | ']', rest => some (.closeArray, rest)
  | '{', rest => some (.openObject, rest)
  | '}', rest => some (.closeObject, rest)
  | ',', rest => some (.comma, rest)
  | ':', rest => some (.colon, rest)
  | 'n', 'u' :: 'l' :: 'l' :: rest => some (.scalar .null, rest)
  | 't', 'r' :: 'u' :: 'e' :: rest => some (.scalar (.boolean true), rest)
  | 'f', 'a' :: 'l' :: 's' :: 'e' :: rest => some (.scalar (.boolean false), rest)
  | '"', rest => (content? rest).map fun (cs, rest) => (.string (String.ofList cs), rest)
  | c, rest =>
    (ofNumberText? (c :: rest.takeWhile isNumeral)).map fun j =>
      (.scalar j, rest.dropWhile isNumeral)

theorem length_content?_le {cs text rest : List Char} (h : content? cs = some (text, rest)) :
    rest.length ≤ cs.length := by
  fun_induction content? cs generalizing text rest with
  | case1 cs _ =>
    cases h
    simp
  | case2 => cases h
  | case3 cs _ c others hc shorter ih =>
    obtain ⟨⟨text', rest'⟩, ht, he⟩ := Option.map_eq_some_iff.1 h
    cases he
    exact Nat.le_of_lt (Nat.lt_of_le_of_lt (ih ht) shorter)

theorem Token.length_read?_le {c : Char} {cs rest : List Char} {t : Token}
    (h : Token.read? c cs = some (t, rest)) : rest.length ≤ cs.length := by
  unfold Token.read? at h
  split at h
  · cases h; simp
  · cases h; simp
  · cases h; simp
  · cases h; simp
  · cases h; simp
  · cases h; simp
  · cases h; simp only [List.length_cons]; omega
  · cases h; simp only [List.length_cons]; omega
  · cases h; simp only [List.length_cons]; omega
  · obtain ⟨⟨text, others⟩, hc, he⟩ := Option.map_eq_some_iff.1 h
    cases he
    exact length_content?_le hc
  · obtain ⟨j, _, he⟩ := Option.map_eq_some_iff.1 h
    cases he
    exact (List.dropWhile_sublist _).length_le

def tokens? (cs : List Char) : Option (List Token) :=
  match cs with
  | [] => some []
  | c :: rest =>
    if isSpace c then tokens? rest
    else match h : Token.read? c rest with
      | none => none
      | some (t, others) =>
        have := Token.length_read?_le h
        (tokens? others).map (t :: ·)
termination_by cs.length
decreasing_by all_goals simp only [List.length_cons]; omega

end JsonQuery.Json
