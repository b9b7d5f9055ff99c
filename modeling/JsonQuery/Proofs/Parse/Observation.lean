import JsonQuery.Proofs.Parse.Arena

/-! What is written down of a descent. Two descents whose steps are related are related as wholes,
so a descent that keeps a log of its steps reads what the descent without one reads. A log of the
tables shows that a table grows by one row at a time, so the tables on the way are the first rows of
the last one. -/
namespace JsonQuery.Parse

namespace Descent

variable {m n : Type → Type} [Descent m] [Descent n]

/-- A relation that the steps of two descents keep. -/
structure Related (R : (α : Type) → m α → n α → Prop) : Prop where
  pure {α : Type} (a : α) : R α (pure a) (pure a)
  bind {α β : Type} {x : m α} {y : n α} {f : α → m β} {g : α → n β} :
    R α x y → (∀ a, R β (f a) (g a)) → R β (x >>= f) (y >>= g)
  look : R Reader look look
  stop {α : Type} (why : Stop) : R α (stop why) (stop why)
  advance : R Token advance advance
  push (cap : Nat) (label : Label) (children : List Nat) (span : Span) :
    R Nat (push cap label children span) (push cap label children span)
  enter {α : Type} {x : m α} {y : n α} : R α x y → R α (enter x) (enter y)

namespace Related

variable {R : (α : Type) → m α → n α → Prop} {cap : Nat} {operand : Nat → m Nat}
  {operand' : Nat → n Nat} (related : Related R)

include related

theorem fail {α : Type} (e : ParseError) (span : Span) :
    R α (Descent.fail e span) (Descent.fail e span) :=
  related.stop _

theorem expect (kind : TokenKind) : R Unit (Descent.expect kind) (Descent.expect kind) := by
  refine related.bind related.look fun r => ?_
  dsimp only
  split
  · exact related.bind related.advance fun t => related.pure ()
  · exact related.fail _ _

section Operands

variable (operands : ∀ power, R Nat (operand power) (operand' power))
include operands

theorem bounds (first : Nat) (span : Span) :
    R Nat (Descent.bounds cap operand first span) (Descent.bounds cap operand' first span) := by
  refine related.bind related.look fun r => ?_
  dsimp only
  split
  · exact related.bind (related.push _ _ _ _) fun last => related.push _ _ _ _
  · exact related.bind (operands _) fun last => related.push _ _ _ _

theorem leading (t : Token) (preceding : Option TokenKind) :
    R Nat (Descent.leading cap operand t preceding)
      (Descent.leading cap operand' t preceding) := by
  unfold Descent.leading
  cases t.kind with
  | identifier | string => exact related.push _ _ _ _
  | number =>
    dsimp only
    split
    · exact related.push _ _ _ _
    · exact related.fail _ _
  | leftParen =>
    refine related.bind (operands _) fun inner => ?_
    exact related.bind (related.expect _) fun _ => related.pure inner
  | not | addSub => exact related.bind (operands _) fun inner => related.push _ _ _ _
  | slice =>
    exact related.bind (related.push _ _ _ _) fun first => related.bounds operands first t.span
  | eof | rightParen | leftBracket | rightBracket => exact related.fail _ _
  | dot | mulDiv | power | comparison | and | or | stringCompare | filter =>
    dsimp only
    split <;> exact related.fail _ _

theorem following (t : Token) (left : Nat) :
    R Nat (Descent.following cap operand t left) (Descent.following cap operand' t left) := by
  unfold Descent.following
  cases t.kind with
  | addSub | mulDiv | comparison | and | or | stringCompare =>
    dsimp only
    split
    · exact related.bind (operands _) fun right => related.push _ _ _ _
    · exact related.fail _ _
  | power | dot | filter => exact related.bind (operands _) fun right => related.push _ _ _ _
  | leftBracket =>
    refine related.bind (operands _) fun place => ?_
    exact related.bind (related.expect _) fun _ => related.push _ _ _ _
  | slice => exact related.bounds operands left t.span
  | _ => exact related.fail _ _

theorem continued (power steps left : Nat) :
    R Nat (Descent.continued cap operand power steps left)
      (Descent.continued cap operand' power steps left) := by
  induction steps generalizing left with
  | zero => exact related.stop _
  | succ steps ih =>
    refine related.bind related.look fun r => ?_
    split
    · refine related.bind related.advance fun t => ?_
      exact related.bind (related.following operands t left) ih
    · exact related.pure left

end Operands

theorem expression (budget power : Nat) :
    R Nat (Descent.expression cap budget power) (Descent.expression cap budget power) := by
  induction budget generalizing power with
  | zero => exact related.enter (related.stop _)
  | succ budget ih =>
    refine related.enter (related.bind related.look fun r => ?_)
    split
    · exact related.fail _ _
    · refine related.bind related.advance fun t => ?_
      refine related.bind (related.leading ih t r.previous) fun first => ?_
      exact related.continued ih power (budget + 1) first

/-- Descents are related when their steps are. -/
theorem whole (budget : Nat) : R Nat (Descent.whole cap budget) (Descent.whole cap budget) := by
  refine related.bind (related.expression budget 0) fun root => ?_
  refine related.bind related.look fun r => ?_
  dsimp only
  split
  · exact related.pure root
  · exact related.fail _ _

end Related
end Descent

/-- What can be written down: nothing, one thing after another, that the reader moved on, the table
to which a node was added, and what was written down inside of an operand. -/
class Ledger (ω : Type) where
  blank : ω
  plus (first second : ω) : ω
  move : ω
  added (t : Table) : ω
  nested (inner : ω) : ω

/-- A reading, and what is written down of it from where the reader is. -/
structure Observed (ω α : Type) where
  reading : Reading α
  log : Reader → ω

namespace Observed

variable {ω α β : Type} [Ledger ω] {cap : Nat} {r r' : Reader}

def silent (x : Reading α) : Observed ω α := ⟨x, fun _ => Ledger.blank⟩

instance : Descent (Observed ω) where
  pure a := silent (pure a)
  bind x f := {
    reading := x.reading >>= fun a => (f a).reading
    log := fun r => match x.reading.run.run r with
      | (.ok a, r') => Ledger.plus (x.log r) ((f a).log r')
      | (.error _, _) => x.log r }
  look := silent get
  stop why := silent (throw why)
  advance := ⟨Reading.advance, fun _ => Ledger.move⟩
  push cap label children span := {
    reading := Reading.push cap label children span
    log := fun r => match (Reading.push cap label children span).run.run r with
      | (.ok _, r') => Ledger.added r'.table
      | (.error _, _) => Ledger.blank }
  enter x := {
    reading := Reading.enter x.reading
    log := fun r => Ledger.nested (x.log { r with nesting := r.nesting + 1 }) }

theorem reading_bind (x : Observed ω α) (f : α → Observed ω β) :
    (x >>= f).reading = x.reading >>= fun a => (f a).reading := rfl

variable {x : Observed ω α} {f : α → Observed ω β}

theorem log_bind_of_ok {a : α} (ran : x.reading.run.run r = (.ok a, r')) :
    (x >>= f).log r = Ledger.plus (x.log r) ((f a).log r') := by
  simp only [bind, ran]

theorem log_bind_of_error {stop : Stop} (ran : x.reading.run.run r = (.error stop, r')) :
    (x >>= f).log r = x.log r := by
  simp only [bind, ran]

theorem reading_enter (x : Observed ω α) :
    (Descent.enter x).reading = Reading.enter x.reading := rfl

theorem log_enter (x : Observed ω α) (r : Reader) :
    (Descent.enter x).log r = Ledger.nested (x.log { r with nesting := r.nesting + 1 }) := rfl

section Push

variable {label : Label} {children : List Nat} {span : Span}

theorem reading_push : (Descent.push cap label children span : Observed ω Nat).reading =
    Reading.push cap label children span := rfl

theorem log_push_of_ok {row : Nat}
    (ran : (Reading.push cap label children span).run.run r = (.ok row, r')) :
    (Descent.push cap label children span : Observed ω Nat).log r = Ledger.added r'.table := by
  simp only [Descent.push, ran]

theorem log_push_of_error {stop : Stop}
    (ran : (Reading.push cap label children span).run.run r = (.error stop, r')) :
    (Descent.push cap label children span : Observed ω Nat).log r = Ledger.blank := by
  simp only [Descent.push, ran]

end Push

/-- What is observed is what is read. -/
theorem reading_whole (budget : Nat) :
    (Descent.whole cap budget : Observed ω Nat).reading = Descent.whole cap budget := by
  have related : Descent.Related fun α (x : Observed ω α) (y : Reading α) => x.reading = y := by
    constructor
    case bind =>
      rintro α β x y f g rfl same
      exact congrArg (x.reading >>= ·) (funext same)
    case enter =>
      rintro α x y rfl
      rfl
    all_goals intros; rfl
  exact related.whole budget

end Observed

/-- The tables that a table becomes one after the other, each with one node more. -/
inductive Table.Grows : Table → List Table → Table → Prop where
  | refl (t : Table) : Grows t [] t
  | push {cap : Nat} {row : Row} {t t' last : Table} {others : List Table} :
    t.push cap row = .ok t' → Grows t' others last → Grows t (t' :: others) last

namespace Table

variable {cap : Nat} {t t' u v : Table} {ts us : List Table}

theorem first_first {few many : Nat} (le : few ≤ many) :
    (t.first many).first few = t.first few := by
  simp [first, Nat.min_eq_left le]

theorem Even.first_size (even : t.Even) : t.first t.rows.size = t := by
  have rows : t.rows.take t.rows.size = t.rows := by simp
  have depths : t.depths.take t.rows.size = t.depths := by
    simpa using .inr (Nat.le_of_eq even)
  rw [first, rows, depths]

/-- The rows before a new one stay as they are. -/
theorem first_of_push {row : Row} (pushed : t.push cap row = .ok t') (even : t.Even) :
    t'.Even ∧ t'.first t.rows.size = t := by
  unfold push at pushed
  unfold Even at even
  split at pushed <;> cases pushed
  constructor
  · simp [Even, even]
  · simp [first, ← even]

theorem Grows.append (first : Grows t ts u) (second : Grows u us v) :
    Grows t (ts ++ us) v := by
  induction first with
  | refl => exact second
  | push pushed _ ih => exact .push pushed (ih second)

/-- Nothing is changed and nothing is taken away. -/
theorem Grows.eq_first (grows : Grows t ts u) (even : t.Even) :
    u.rows.size = t.rows.size + ts.length ∧ t = u.first t.rows.size ∧
      ts = (List.range' (t.rows.size + 1) ts.length).map u.first := by
  induction grows with
  | refl t => exact ⟨rfl, even.first_size.symm, rfl⟩
  | @push cap row t t' last others pushed _ ih =>
    obtain ⟨even', before⟩ := first_of_push pushed even
    obtain ⟨size, after, rest⟩ := ih even'
    rw [size_of_push pushed] at size after rest
    refine ⟨by rw [size, List.length_cons]; omega, ?_, ?_⟩
    · calc t = t'.first t.rows.size := before.symm
        _ = (last.first (t.rows.size + 1)).first t.rows.size := by rw [← after]
        _ = last.first t.rows.size := first_first (Nat.le_succ _)
    · rw [List.length_cons, List.range'_succ, List.map_cons, ← after, ← rest]

end Table

/-- The log of the tables that come up. -/
instance : Ledger (List Table) where
  blank := []
  plus := (· ++ ·)
  move := []
  added t := [t]
  nested inner := inner

/-- The table that a reading leaves has grown by way of the tables that are written down. -/
def Observed.Grows {α : Type} (x : Observed (List Table) α) : Prop :=
  ∀ r, Table.Grows r.table (x.log r) (x.reading.run.run r).2.table

namespace Observed

variable {cap : Nat} {α β : Type} {x : Observed (List Table) α} {f : α → Observed (List Table) β}

theorem Grows.bind (first : x.Grows) (rest : ∀ a, (f a).Grows) : (x >>= f).Grows := by
  intro r
  have before := first r
  rw [reading_bind, Reading.run_bind]
  cases ran : x.reading.run.run r with
  | mk outcome r' =>
    rw [ran] at before
    cases outcome with
    | ok a =>
      rw [log_bind_of_ok ran]
      exact before.append (rest a r')
    | error stop =>
      rw [log_bind_of_error ran]
      exact before

theorem grows_advance : (Descent.advance : Observed (List Table) Token).Grows := by
  intro r
  change Table.Grows r.table [] (Reading.advance.run.run r).2.table
  rcases Reading.run_advance_cases r with ⟨e, ran⟩ | ⟨token, cursor, -, ran⟩
  all_goals
    rw [ran]
    exact .refl _

theorem grows_push (cap : Nat) (label : Label) (children : List Nat) (span : Span) :
    (Descent.push cap label children span : Observed (List Table) Nat).Grows := by
  intro r
  rcases Reading.run_push_cases cap label children span r with ⟨e, ran⟩ | ⟨table, pushed, ran⟩
  · rw [reading_push, ran, log_push_of_error ran]
    exact .refl _
  · rw [reading_push, ran, log_push_of_ok ran]
    exact .push pushed (.refl _)

theorem Grows.enter (inner : x.Grows) : (Descent.enter x).Grows := by
  intro r
  have grown := inner { r with nesting := r.nesting + 1 }
  rw [log_enter, reading_enter, Reading.run_enter]
  cases ran : x.reading.run.run { r with nesting := r.nesting + 1 } with
  | mk outcome r' =>
    rw [ran] at grown
    cases outcome <;> exact grown

/-- Every step of the descent adds to the table what is written down of it. -/
theorem grows_whole (budget : Nat) :
    (Descent.whole cap budget : Observed (List Table) Nat).Grows := by
  have related : Descent.Related fun α (x : Observed (List Table) α) (_ : Reading α) =>
      x.Grows := by
    constructor
    case bind => exact fun first rest => first.bind rest
    case advance => exact grows_advance
    case push => exact grows_push
    case enter => exact fun inner => inner.enter
    all_goals intros; exact fun r => .refl _
  exact related.whole budget

end Observed
end JsonQuery.Parse

namespace JsonQuery.Arena

open Parse

/-- Compiles a source with a budget, and gives what is written down of the descent. -/
def observe (ω : Type) [Ledger ω] (source : String) (cap budget : Nat) : Except Stop Arena × ω :=
  match Reader.start source with
  | .error e => (.error (.failed (e.map .lexical)), Ledger.blank)
  | .ok r =>
    let descent : Observed ω Nat := Descent.whole cap budget
    match descent.reading.run.run r with
    | (.ok root, r') => (.ok ⟨r'.table.rows, root⟩, descent.log r)
    | (.error stop, _) => (.error stop, descent.log r)

def tables (source : String) (cap : Nat) : List Table :=
  (observe (List Table) source cap (source.length + 1)).2

variable {ω : Type} [Ledger ω] {source : String} {cap budget : Nat}

theorem log_of_start {r : Reader} (started : Reader.start source = .ok r) :
    (observe ω source cap budget).2 = (Descent.whole cap budget : Observed ω Nat).log r := by
  rw [observe, started]
  dsimp only
  split <;> rfl

theorem observe_eq_parse (enough : (Scan.of source).tokens.length < budget) :
    (observe ω source cap budget).1 = parse source cap := by
  rw [observe, parse_eq]
  cases started : Reader.start source with
  | error e => rw [parse_of_start_error started]
  | ok r =>
    dsimp only
    rw [Observed.reading_whole]
    rcases whole_cases started enough with
      ⟨e, r', parsed, -, table, ran⟩ | ⟨e, forest, r', parsed, table, ran⟩
    · rw [ran, parsed]
      simp [table, Table.add, Table.empty, Expr.rows]
    · rw [ran, parsed]

theorem table_of_start {r : Reader} (started : Reader.start source = .ok r) :
    (read source cap).2 =
      ((Descent.whole cap (source.length + 1) : Reading Nat).run.run r).2.table := by
  rw [read, started]
  dsimp only
  split
  all_goals
    rename_i ran
    rw [ran]

/-- The tables on the way are the first rows of the last one, by one row more each time, be the
source accepted or not. So the depths that they record are true. -/
theorem tables_eq_first (source : String) (cap : Nat) :
    let last := (read source cap).2
    tables source cap = (List.range' 1 last.rows.size).map last.first ∧
      ∀ t ∈ tables source cap, t.RecordsDepths := by
  intro last
  have first : tables source cap = (List.range' 1 last.rows.size).map last.first := by
    unfold tables
    cases started : Reader.start source with
    | error e =>
      have none : last = .empty := by
        unfold last
        rw [read, started]
      rw [none, observe, started]
      rfl
    | ok r =>
      obtain ⟨-, -, -, table, -⟩ := scan_of_start started
      have grows := @Observed.grows_whole cap (source.length + 1) r
      rw [table, Observed.reading_whole, ← table_of_start started] at grows
      obtain ⟨size, -, same⟩ := grows.eq_first Table.even_empty
      change last.rows.size = 0 + _ at size
      rw [Nat.zero_add] at size
      rw [log_of_start started, size]
      exact same
  refine ⟨first, fun t member => ?_⟩
  rw [first] at member
  obtain ⟨n, -, rfl⟩ := List.mem_map.mp member
  exact ((accurate_read source cap).first n).recordsDepths

end JsonQuery.Arena
