import JsonQuery.Proofs.Token.Tiling
import Mathlib.Data.List.DropRight

/-! Iterating over the tokens of a source beyond a failure. Each item takes something off what is
left to read, but for the failure of a single equals sign, which leaves the cursor where it is. An
iteration therefore ends unless it comes to such a failure, and then it gives the same failure for
ever. -/
namespace JsonQuery

def IsSingleEquals (item : Except (Located LexError) Token) : Prop :=
  ∃ span, item = .error ⟨.singleEquals, span⟩

namespace Cursor

/-- The items of an iteration that is given up after a number of them. -/
def items : Nat → Cursor → List (Except (Located LexError) Token)
  | 0, _ => []
  | n + 1, c =>
    match c.item? with
    | (none, _) => []
    | (some item, d) => item :: items n d

variable {c d : Cursor} {item : Except (Located LexError) Token}

theorem items_of_none (h : c.item? = (none, d)) (n : Nat) : items n c = [] := by
  cases n with
  | zero => rfl
  | succ n => simp only [items, h]

theorem items_of_some (h : c.item? = (some item, d)) (n : Nat) :
    items (n + 1) c = item :: items n d := by
  simp only [items, h]

theorem item?_of_eof {t : Token} (h : c.next = (.ok t, d)) (ends : t.kind = .eof) :
    c.item? = (none, d) := by
  simp only [item?, h, if_pos ends]

theorem item?_of_token {t : Token} (h : c.next = (.ok t, d)) (more : t.kind ≠ .eof) :
    c.item? = (some (.ok t), d) := by
  simp only [item?, h, if_neg more]

theorem item?_of_error {e : Located LexError} (h : c.next = (.error e, d)) :
    c.item? = (some (.error e), d) := by
  simp only [item?, h]

theorem item?_cases (h : c.item? = (some item, d)) :
    (∃ t, c.next = (.ok t, d) ∧ t.kind ≠ .eof ∧ item = .ok t) ∨
      ∃ e, c.next = (.error e, d) ∧ item = .error e := by
  unfold item? at h
  split at h
  · rename_i t d' read
    split at h
    · cases h
    · rename_i more
      cases h
      exact .inl ⟨t, read, more, rfl⟩
  · rename_i e d' read
    cases h
    exact .inr ⟨e, read, rfl⟩

/-- A failure has been read behind blanks, where something is left. A string that does not end takes
all of it, and a single equals sign takes nothing. -/
theorem next_failure {e : Located LexError} (h : c.next = (.error e, d)) :
    c.skipBlanks.rest ≠ [] ∧
      (e.cause = .unterminatedString ∧ d.rest = [] ∨
        e.cause = .singleEquals ∧ d = c.skipBlanks) := by
  unfold next at h
  dsimp only at h
  split at h
  · cases h
  · rename_i first others skipped
    have left : c.skipBlanks.rest ≠ [] := by
      rw [skipped]
      exact List.cons_ne_nil first others
    refine ⟨left, ?_⟩
    split at h
    · cases h
    · cases h
      exact .inl ⟨rfl, rfl⟩
    · cases h
      exact .inr ⟨rfl, rfl⟩

theorem skipBlanks_skipBlanks (c : Cursor) : c.skipBlanks.skipBlanks = c.skipBlanks := by
  have rest : (c.rest.dropWhile Text.isBlank).dropWhile Text.isBlank =
      c.rest.dropWhile Text.isBlank := List.dropWhile_idempotent _ _
  have none : (c.rest.dropWhile Text.isBlank).takeWhile Text.isBlank = [] := by
    have parts := @List.takeWhile_append_dropWhile _ Text.isBlank (c.rest.dropWhile Text.isBlank)
    rwa [rest, List.append_left_eq_self] at parts
  simp only [skipBlanks, past, none, rest, Text.bytes_nil, Nat.add_zero]

/-- Blanks in front do not matter to what is read. -/
theorem next_skipBlanks (c : Cursor) : c.skipBlanks.next = c.next := by
  unfold next
  rw [skipBlanks_skipBlanks]

theorem bytes_skipBlanks_le (c : Cursor) : Text.bytes c.skipBlanks.rest ≤ Text.bytes c.rest := by
  have parts := congrArg Text.bytes (@List.takeWhile_append_dropWhile _ Text.isBlank c.rest)
  rw [Text.bytes_append] at parts
  exact Nat.le.intro ((Nat.add_comm _ _).trans parts)

/-- A token takes something off what is left, and so does a string that does not end. -/
theorem bytes_item?_lt (h : c.item? = (some item, d)) (moves : ¬IsSingleEquals item) :
    Text.bytes d.rest < Text.bytes c.rest := by
  obtain ⟨t, read, more, rfl⟩ | ⟨e, read, rfl⟩ := item?_cases h
  · obtain ⟨blanks, first, others, l, parts, -, -, found, -, rfl⟩ := next_lexeme read more
    have taken := Text.bytes_pos (Lexeme.taken_ne_nil found)
    rw [parts, Text.bytes_append, ← Lexeme.taken_append_rest found, Text.bytes_append]
    dsimp only
    omega
  · obtain ⟨left, ⟨-, ended⟩ | ⟨cause, -⟩⟩ := next_failure read
    · rw [ended, Text.bytes_nil]
      exact Nat.lt_of_lt_of_le (Text.bytes_pos left) c.bytes_skipBlanks_le
    · exact absurd ⟨e.span, by rw [← cause]⟩ moves

/-- After a single equals sign the same failure comes again. -/
theorem item?_of_singleEquals (h : c.item? = (some item, d)) (stays : IsSingleEquals item) :
    d.item? = (some item, d) := by
  obtain ⟨span, rfl⟩ := stays
  obtain ⟨t, -, -, same⟩ | ⟨e, read, same⟩ := item?_cases h
  · cases same
  · cases same
    obtain ⟨-, ⟨cause, -⟩ | ⟨-, rfl⟩⟩ := next_failure read
    · cases cause
    · exact item?_of_error (by rw [next_skipBlanks, read])

theorem items_of_fixed (h : c.item? = (some item, c)) (n : Nat) :
    items n c = List.replicate n item := by
  induction n with
  | zero => rfl
  | succ n ih => rw [items_of_some h, ih, List.replicate_succ]

/-- Unless a scan stops at a single equals sign, there are no more items than bytes to read. -/
theorem length_items_le (c : Cursor) (moves : ¬IsSingleEquals (Scan.ofCursor c).last) (n : Nat) :
    (items n c).length ≤ Text.bytes c.rest := by
  fun_induction Scan.ofCursor c generalizing n with
  | case1 c e d h =>
    cases n with
    | zero => exact Nat.zero_le _
    | succ n =>
      have item := item?_of_error h
      have less := bytes_item?_lt item moves
      -- The failure is that of a string, behind which nothing is left.
      obtain ⟨-, ⟨-, ended⟩ | ⟨cause, -⟩⟩ := next_failure h
      · have finished : d.item? = (none, d.skipBlanks) := by
          simp [item?, next, skipBlanks, past, ended]
        rw [items_of_some item, items_of_none finished]
        exact Nat.lt_of_le_of_lt (Nat.zero_le _) less
      · exact absurd ⟨e.span, by rw [← cause]⟩ moves
  | case2 c t d h ends =>
    rw [items_of_none (item?_of_eof h ends)]
    exact Nat.zero_le _
  | case3 c t d h more shorter others ih =>
    cases n with
    | zero => exact Nat.zero_le _
    | succ n =>
      have item := item?_of_token h more
      have less := bytes_item?_lt item (by rintro ⟨span, same⟩; cases same)
      rw [items_of_some item]
      exact Nat.lt_of_le_of_lt (ih moves n) less

/-- If a scan stops at a single equals sign, its tokens are followed by that failure again and
again. -/
theorem items_of_singleEquals (c : Cursor) (stays : IsSingleEquals (Scan.ofCursor c).last)
    (n : Nat) : items n c = ((Scan.ofCursor c).tokens.map Except.ok).take n ++
      List.replicate (n - (Scan.ofCursor c).tokens.length) (Scan.ofCursor c).last := by
  fun_induction Scan.ofCursor c generalizing n with
  | case1 c e d h =>
    have item := item?_of_error h
    rw [List.map_nil, List.take_nil, List.nil_append, List.length_nil, Nat.sub_zero]
    cases n with
    | zero => rfl
    | succ n =>
      rw [items_of_some item, items_of_fixed (item?_of_singleEquals item stays),
        List.replicate_succ]
  | case2 c t d h ends =>
    obtain ⟨span, same⟩ := stays
    cases same
  | case3 c t d h more shorter others ih =>
    cases n with
    | zero => rw [Nat.zero_sub]; rfl
    | succ n =>
      rw [items_of_some (item?_of_token h more), ih stays n, List.map_cons, List.take_succ_cons,
        List.cons_append, List.length_cons, Nat.add_sub_add_right]

end Cursor

/-- An iteration over the tokens of a source comes nearer to the end with each item, but for the
failure of a single equals sign, after which it gives the same item again. It ends, after no more
items than the source has bytes, exactly when a scan of the source does not stop at such a failure.
Otherwise it gives the tokens of the scan and then that failure for ever. -/
theorem iteration_ends_iff (source : String) :
    let scan := Scan.of source
    let start := Cursor.start source
    (∀ c d item, Cursor.item? c = (some item, d) →
      (¬IsSingleEquals item → Text.bytes d.rest < Text.bytes c.rest) ∧
        (IsSingleEquals item → d.item? = (some item, d))) ∧
    ((∀ n, (start.items n).length ≤ Text.bytes source.toList) ↔ ¬IsSingleEquals scan.last) ∧
    (IsSingleEquals scan.last → ∀ n, start.items n =
      (scan.tokens.map Except.ok).take n ++ List.replicate (n - scan.tokens.length) scan.last) := by
  intro scan start
  refine ⟨fun c d item h => ⟨Cursor.bytes_item?_lt h, Cursor.item?_of_singleEquals h⟩, ⟨?_, ?_⟩,
    Cursor.items_of_singleEquals start⟩
  · intro bounded stays
    have more := bounded (Text.bytes source.toList + 1)
    rw [Cursor.items_of_singleEquals start stays] at more
    simp only [List.length_append, List.length_take, List.length_map, List.length_replicate] at more
    omega
  · exact Cursor.length_items_le start

/-- A single equals sign alone is reported for ever, and the iteration stays before it. -/
theorem iteration_stays_at_equals :
    let failure : Except (Located LexError) Token := .error ⟨.singleEquals, ⟨0, 1⟩⟩
    let start := Cursor.start "="
    start.item? = (some failure, start) ∧ (∀ n, start.items n = List.replicate n failure) ∧
      ¬∀ n, (start.items n).length ≤ Text.bytes "=".toList + 1 := by
  intro failure start
  have fixed : start.item? = (some failure, start) := by with_unfolding_all rfl
  refine ⟨fixed, Cursor.items_of_fixed fixed, fun bounded => ?_⟩
  have more := bounded 3
  rw [Cursor.items_of_fixed fixed, List.length_replicate] at more
  exact absurd more (by decide)

end JsonQuery
