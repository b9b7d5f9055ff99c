/-! Text, read character by character while places in it are counted in UTF-8 bytes. A text can be
cut at a byte position only between two characters. A span is a range of bytes, and failures are put
at the spans that they are about. -/
namespace JsonQuery.Text

/-- The number of bytes that characters take in UTF-8. -/
def bytes : List Char → Nat
  | [] => 0
  | c :: cs => c.utf8Size + bytes cs

@[simp] theorem bytes_nil : bytes [] = 0 := rfl

@[simp] theorem bytes_cons (c : Char) (cs : List Char) :
    bytes (c :: cs) = c.utf8Size + bytes cs := rfl

@[simp] theorem bytes_append (cs ds : List Char) : bytes (cs ++ ds) = bytes cs + bytes ds := by
  induction cs with
  | nil => simp
  | cons c cs ih => simp [ih, Nat.add_assoc]

theorem length_le_bytes (cs : List Char) : cs.length ≤ bytes cs := by
  induction cs with
  | nil => simp
  | cons c cs ih =>
    have := c.utf8Size_pos
    simp only [List.length_cons, bytes_cons]
    omega

/-- The characters before and after a byte position. There are none when the position lies past
the end or inside a character. -/
def cut? : Nat → List Char → Option (List Char × List Char)
  | 0, cs => some ([], cs)
  | _ + 1, [] => none
  | n + 1, c :: cs =>
    if c.utf8Size ≤ n + 1 then
      (cut? (n + 1 - c.utf8Size) cs).map fun (before, after) => (c :: before, after)
    else none

/-- The cut at a byte position, or else the last one before it. -/
def cutBefore : Nat → List Char → List Char × List Char
  | _, [] => ([], [])
  | n, c :: cs =>
    if c.utf8Size ≤ n then
      let (before, after) := cutBefore (n - c.utf8Size) cs
      (c :: before, after)
    else ([], c :: cs)

/-- A cut loses no character. -/
theorem cutBefore_append (n : Nat) (cs : List Char) :
    (cutBefore n cs).1 ++ (cutBefore n cs).2 = cs := by
  induction cs generalizing n with
  | nil => simp [cutBefore]
  | cons c cs ih =>
    unfold cutBefore
    split
    · simp [ih]
    · rfl

/-- White space in the sense of Unicode, which also knows the no-break and the typographic
spaces. -/
def isBlank (c : Char) : Bool :=
  let n := c.toNat
  (0x09 ≤ n && n ≤ 0x0D) || n == 0x20 || n == 0x85 || n == 0xA0 || n == 0x1680 ||
    (0x2000 ≤ n && n ≤ 0x200A) || n == 0x2028 || n == 0x2029 || n == 0x202F || n == 0x205F ||
    n == 0x3000

def trim (cs : List Char) : List Char :=
  ((cs.dropWhile isBlank).reverse.dropWhile isBlank).reverse

def startsWith (text part : List Char) : Bool := part.isPrefixOf text

def endsWith (text part : List Char) : Bool := part.isSuffixOf text

/-- Whether a part occurs anywhere in a text. The empty part occurs in every text. -/
def contains (text part : List Char) : Bool :=
  match text with
  | [] => part.isEmpty
  | _ :: rest => startsWith text part || contains rest part

end JsonQuery.Text

namespace JsonQuery

/-- A range of bytes in a source text. An empty span marks a place between two characters. -/
structure Span where
  offset : Nat
  length : Nat
deriving DecidableEq

/-- A cause of failure, together with the part of the source that it is about. -/
structure Located (ε : Type) where
  cause : ε
  span : Span

namespace Span

def stop (s : Span) : Nat := s.offset + s.length

/-- Puts the place of a step onto its failure. -/
def locate {ε α : Type} (s : Span) : Except ε α → Except (Located ε) α
  | .ok a => .ok a
  | .error e => .error ⟨e, s⟩

@[simp] theorem locate_ok {ε α : Type} (s : Span) (a : α) :
    s.locate (.ok a : Except ε α) = .ok a := rfl

@[simp] theorem locate_error {ε α : Type} (s : Span) (e : ε) :
    s.locate (.error e : Except ε α) = .error ⟨e, s⟩ := rfl

end Span

/-- The same failure in a wider class of causes. -/
def Located.map {ε φ : Type} (f : ε → φ) (e : Located ε) : Located φ := ⟨f e.cause, e.span⟩

end JsonQuery
