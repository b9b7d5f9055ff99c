import JsonQuery.Parse.Descent
import JsonQuery.Proofs.Parse.Steps
import JsonQuery.Proofs.Parse.Table
import JsonQuery.Proofs.Token.Scanning
import JsonQuery.Proofs.Token.Spelling

/-! Single moves of the reader, compared with the steps that take a token of a whole scan. What is
left to read is a scan, and a state of the stack machine stands for what has been read: the outcome
is that of running the machine on from there. -/
namespace JsonQuery.Parse

variable {α β : Type} {cap : Nat} {out : Except (Located ReadError) Expr} {t : Table} {r : Reader}

namespace Reading

/-- A reading uses up no budget, and what is claimed holds of the reader after it, be it that the
reading gives something or that it fails. -/
def Ends (x : Reading α) (r : Reader) (post : α → Reader → Prop)
    (fails : Located ReadError → Reader → Prop) : Prop :=
  match x.run.run r with
  | (.ok a, r') => post a r'
  | (.error (.failed e), r') => fails e r'
  | (.error .exhausted, _) => False

variable {x : Reading α} {f : α → Reading β} {post : α → Reader → Prop}
  {post' : β → Reader → Prop} {fails : Located ReadError → Reader → Prop}

theorem run_bind (x : Reading α) (f : α → Reading β) (r : Reader) :
    (x >>= f).run.run r = match x.run.run r with
      | (.ok a, r') => (f a).run.run r'
      | (.error stop, r') => (.error stop, r') := by
  simp only [ExceptT.run_bind, StateT.run_bind]
  cases StateT.run (ExceptT.run x) r with
  | mk outcome r' => cases outcome <;> rfl

theorem run_get (f : Reader → Reading β) (r : Reader) :
    (get >>= f).run.run r = (f r).run.run r := rfl

theorem run_enter (x : Reading α) (r : Reader) :
    (enter x).run.run r = match x.run.run { r with nesting := r.nesting + 1 } with
      | (.ok a, r') => (.ok a, { r' with nesting := r'.nesting - 1 })
      | (.error stop, r') => (.error stop, r') := by
  change (x >>= fun a =>
    (modify fun r => { r with nesting := r.nesting - 1 } : Reading Unit) >>= fun _ =>
      pure a).run.run { r with nesting := r.nesting + 1 } = _
  rw [run_bind]
  rfl

/-- To move on fails where no token can be read, and else leaves all but the place. -/
theorem run_advance_cases (r : Reader) :
    (∃ e, advance.run.run r = (.error (.failed e), r)) ∨
    ∃ token cursor, r.cursor.next = (.ok token, cursor) ∧ advance.run.run r =
      (.ok r.current, { r with cursor, current := token, previous := some r.current.kind }) := by
  rw [advance, run_get]
  cases read : r.cursor.next with
  | mk outcome cursor =>
    cases outcome with
    | error e => exact .inl ⟨e.map .lexical, rfl⟩
    | ok token => exact .inr ⟨token, cursor, rfl, rfl⟩

/-- To add a node fails where the table refuses it, and else leaves all but the table. -/
theorem run_push_cases (cap : Nat) (label : Label) (children : List Nat) (span : Span)
    (r : Reader) :
    (∃ e, (push cap label children span).run.run r = (.error (.failed e), r)) ∨
    ∃ table, r.table.push cap ⟨label, children, span⟩ = .ok table ∧
      (push cap label children span).run.run r = (.ok r.table.rows.size, { r with table }) := by
  rw [push, run_get]
  cases pushed : r.table.push cap ⟨label, children, span⟩ with
  | error e => exact .inl ⟨e, rfl⟩
  | ok table => exact .inr ⟨table, rfl, rfl⟩

theorem Ends.bind (h : x.Ends r post fails)
    (next : ∀ a r', post a r' → (f a).Ends r' post' fails) : (x >>= f).Ends r post' fails := by
  unfold Ends at h ⊢
  rw [run_bind]
  cases ran : x.run.run r with
  | mk outcome r' =>
    rw [ran] at h
    cases outcome with
    | ok a => exact next a r' h
    | error stop =>
      cases stop with
      | failed e => exact h
      | exhausted => exact h

theorem Ends.imp {post' : α → Reader → Prop} {fails' : Located ReadError → Reader → Prop}
    (h : x.Ends r post fails) (weaker : ∀ a r', post a r' → post' a r')
    (weaker' : ∀ e r', fails e r' → fails' e r') : x.Ends r post' fails' := by
  unfold Ends at h ⊢
  cases ran : x.run.run r with
  | mk outcome r' =>
    rw [ran] at h
    cases outcome with
    | ok a => exact weaker a r' h
    | error stop =>
      cases stop with
      | failed e => exact weaker' e r' h
      | exhausted => exact h

theorem Ends.mono {post' : α → Reader → Prop} (h : x.Ends r post fails)
    (weaker : ∀ a r', post a r' → post' a r') : x.Ends r post' fails :=
  h.imp weaker fun _ _ => id

theorem Ends.relax {fails' : Located ReadError → Reader → Prop} (h : x.Ends r post fails)
    (weaker : ∀ e r', fails e r' → fails' e r') : x.Ends r post fails' :=
  h.imp (fun _ _ => id) weaker

theorem ends_pure {a : α} (h : post a r) : (pure a : Reading α).Ends r post fails := h

/-- Looking at the reader does not change it. -/
theorem ends_get {f : Reader → Reading β} (h : (f r).Ends r post' fails) :
    ((get : Reading Reader) >>= f).Ends r post' fails := h

/-- An operand is read inside of one more, and what ends early stays there. -/
theorem ends_enter (h : x.Ends { r with nesting := r.nesting + 1 }
    (fun a r' => post a { r' with nesting := r'.nesting - 1 }) fails) :
    (enter x).Ends r post fails := by
  unfold Ends at h ⊢
  rw [run_enter]
  cases ran : x.run.run { r with nesting := r.nesting + 1 } with
  | mk outcome r' =>
    rw [ran] at h
    cases outcome with
    | ok a => exact h
    | error stop => cases stop <;> exact h

end Reading

namespace Reader

/-- What is left to read, with the token ahead. -/
def scan (r : Reader) : Scan :=
  if r.current.kind = .eof then ⟨[], .ok r.current, r.cursor⟩
  else { Scan.ofCursor r.cursor with tokens := r.current :: (Scan.ofCursor r.cursor).tokens }

def left (r : Reader) : Nat := r.scan.tokens.length

/-- What the machine makes of the rest of the source. -/
def resume (cap : Nat) (r : Reader) (s : State) : Except (Located ReadError) Expr :=
  run cap r.scan.last r.scan.tokens s

def Fresh (r : Reader) : Prop := ∃ c : Cursor, c.next = (.ok r.current, r.cursor)

theorem scan_of_next {c : Cursor} (h : c.next = (.ok r.current, r.cursor)) :
    r.scan = Scan.ofCursor c := by
  unfold scan
  split
  · rename_i ends
    rw [Scan.ofCursor_of_eof h ends]
  · rename_i more
    rw [Scan.ofCursor_of_token h more]

theorem scan_of_eof (ends : r.current.kind = .eof) : r.scan = ⟨[], .ok r.current, r.cursor⟩ :=
  if_pos ends

theorem scan_of_more (more : r.current.kind ≠ .eof) :
    r.scan = { Scan.ofCursor r.cursor with
      tokens := r.current :: (Scan.ofCursor r.cursor).tokens } :=
  if_neg more

/-- A token that can be read is there to follow. -/
theorem follow_scan (r : Reader) : follow r.scan.last r.scan.tokens = .ok () := by
  by_cases ends : r.current.kind = .eof
  · rw [scan_of_eof ends]
    rfl
  · rw [scan_of_more ends]
    rfl

/-- The token ahead stands for itself. -/
theorem Fresh.weighted (fresh : r.Fresh) (more : r.current.kind ≠ .eof) :
    Weighted r.current.kind r.current.text := by
  obtain ⟨c, h⟩ := fresh
  have weighted := Scan.forall_mem_tokens Lexeme.weighted_of_read c r.current
  apply weighted
  rw [Scan.ofCursor_of_token h more]
  exact List.mem_cons_self

/-- The machine completes what the token ahead does not bind into. -/
theorem resume_pending {p : Pending} {frames : List Frame} {held : Operand}
    (gives : r.current.kind.bindingPower ≤ p.threshold) :
    r.resume cap (.operator (.pending p :: frames) held) =
      p.complete cap held >>= fun made => r.resume cap (.operator frames made) := by
  unfold resume
  by_cases ends : r.current.kind = .eof
  · rw [scan_of_eof ends]
    simp only [run, finish, settle_of_le (Nat.zero_le p.threshold), bind_assoc]
  · rw [scan_of_more ends]
    simp only [run, approach, approachOperator, settle_of_le gives, bind_assoc]

/-- An end bound that is left out is completed at once. -/
theorem resume_omitted {first : Operand} {span : Span} {frames : List Frame}
    (closes : r.current.kind = .rightBracket) :
    r.resume cap (.operand (.pending (.bound first span) :: frames)) =
      (Pending.bound first span).complete cap
          (.number (Number.ofInt (-1)) ⟨r.current.span.offset, 0⟩) >>=
        fun made => r.resume cap (.operator frames made) := by
  have more : r.current.kind ≠ .eof := by simp [closes]
  unfold resume
  rw [scan_of_more more, run, approach_of_omits closes, bind_assoc]
  rfl

structure Moved (r r' : Reader) : Prop where
  fresh : r'.Fresh
  previous : r'.previous = some r.current.kind
  table : r'.table = r.table
  nesting : r'.nesting = r.nesting

end Reader

/-- The outcome is a failure, and the table has the nodes of some more expressions since a certain
point. -/
def Fails (out : Except (Located ReadError) Expr) (t : Table) (e : Located ReadError)
    (r : Reader) : Prop :=
  out = .error e ∧ ∃ forest, r.table = t.addAll forest

theorem Fails.add {a : Expr} {e : Located ReadError} (h : Fails out (t.add a) e r) :
    Fails out t e r := by
  obtain ⟨same, forest, table⟩ := h
  exact ⟨same, a :: forest, table⟩

theorem fails_of_eq {e : Located ReadError} (same : out = .error e) (table : r.table = t) :
    Fails out t e r :=
  ⟨same, [], table⟩

namespace Reading

/-- The token ahead is taken after it has been approached and the next one has been read. -/
theorem advance_ends {s : State} {action : Action} (more : r.current.kind ≠ .eof)
    (table : r.table = t) (approached : approach cap r.current s = .ok action)
    (same : r.resume cap s = out) :
    advance.Ends r
      (fun token r' => token = r.current ∧ r.Moved r' ∧ r'.left + 1 = r.left ∧
        (take cap r.current action >>= r'.resume cap) = out)
      (Fails out t) := by
  unfold Reader.resume at same
  rw [Reader.scan_of_more more] at same
  simp only [run, approached] at same
  change Ends (get >>= _) r _ _
  apply ends_get
  cases read : r.cursor.next with
  | mk outcome cursor =>
    cases outcome with
    | error e =>
      rw [Scan.ofCursor_of_error read] at same
      exact fails_of_eq same.symm table
    | ok next =>
      let r' : Reader := { r with cursor, current := next, previous := some r.current.kind }
      have scanned : r'.scan = Scan.ofCursor r.cursor := Reader.scan_of_next read
      have followed := r'.follow_scan
      have moved : r.Moved r' := ⟨⟨r.cursor, read⟩, rfl, rfl, rfl⟩
      rw [← scanned] at same
      rw [followed] at same
      refine ⟨rfl, moved, ?_, same⟩
      unfold Reader.left
      rw [Reader.scan_of_more more, ← scanned]
      rfl

/-- The end can be passed. -/
theorem advance_of_eof {fails : Located ReadError → Reader → Prop} (fresh : r.Fresh)
    (ends : r.current.kind = .eof) :
    advance.Ends r (fun token r' => token = r.current ∧ r'.table = r.table) fails := by
  obtain ⟨c, read⟩ := fresh
  obtain ⟨next, cursor, again⟩ := Cursor.next_of_eof read ends
  change Ends (get >>= _) r _ _
  apply ends_get
  rw [again]
  exact ⟨rfl, rfl⟩

end Reading
end JsonQuery.Parse
