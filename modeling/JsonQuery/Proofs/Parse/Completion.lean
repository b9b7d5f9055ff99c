import JsonQuery.Proofs.Parse.Acceptance
import JsonQuery.Proofs.Parse.Arena
import JsonQuery.Proofs.Parse.Precedence
import JsonQuery.Proofs.Token.Pieces

/-! Where a failure is reported. What the reader has taken can always be completed, by a name if an
operand is due and by the closing tokens that are missing. The token that it refuses is one that no
expression has there, since a step depends on nothing that comes later. -/
namespace JsonQuery

/-- The tokens of a source, the end among them, start with certain ones, which may stand at other
places there. -/
def Begins (source : String) (ts : List Token) : Prop :=
  ∃ eof, (Scan.of source).last = .ok eof ∧
    ts.map Token.plain <+: ((Scan.of source).tokens ++ [eof]).map Token.plain

namespace Parse

variable {cap : Nat} {t : Token} {frames : List Frame} {held : Operand} {w : List Token}

/-- Apart from the cap, a failure is the fault of the token at which it is reported. -/
def Blames (t : Token) (e : Located ReadError) : Prop := IsTooComplex e ∨ e.span = t.span

theorem blames_of_tooComplex {α : Type} {post : α → Prop} {x : Except (Located ReadError) α}
    (h : Ensures post IsTooComplex x) : Ensures post (Blames t) x :=
  h.relax fun _ complex => .inl complex

theorem approachOperator_blames :
    Ensures (fun _ => True) (Blames t) (approachOperator cap t frames held) := by
  apply (blames_of_tooComplex settle_ensures).bind
  rintro ⟨rest, r⟩ -
  dsimp only
  split
  · trivial
  split
  · split
    · trivial
    · exact .inr rfl
  · exact .inr rfl

theorem approach_blames (s : State) :
    Ensures (fun _ => True) (Blames t) (approach cap t s) := by
  cases s with
  | operator frames held => exact approachOperator_blames
  | operand frames =>
    by_cases omits : Omits t frames
    · obtain ⟨closes, first, span, rest, rfl⟩ := omits
      rw [approach_of_omits closes]
      apply (blames_of_tooComplex (complete_ensures _)).bind
      intro made _
      exact approachOperator_blames
    · rw [approach_of_not_omits omits]
      split
      · exact .inl rfl
      · trivial

theorem takeStart_blames : Ensures (fun _ => True) (Blames t) (takeStart t frames) := by
  simp only [takeStart]
  split
  · trivial
  · trivial
  · split
    · trivial
    · exact .inr rfl
  · trivial
  · trivial
  · trivial
  · trivial
  · exact .inr rfl
  · exact .inr rfl
  · exact .inr rfl
  · exact .inr rfl
  · split <;> exact .inr rfl

theorem takeExtend_blames : Ensures (fun _ => True) (Blames t) (takeExtend t frames held) := by
  simp only [takeExtend]
  split
  · trivial
  · trivial
  · trivial
  · trivial
  · exact .inr rfl
  · split
    · trivial
    · exact .inr rfl

theorem step_blames (s : State) : Ensures (fun _ => True) (Blames t) (step cap s t) := by
  apply (approach_blames s).bind
  intro action _
  cases action with
  | start frames => exact takeStart_blames
  | extend frames held => exact takeExtend_blames
  | close e frames held =>
    exact (blames_of_tooComplex (close_ensures e)).bind fun made _ => trivial

theorem finish_blames (s : State) : Ensures (fun _ => True) (Blames t) (finish cap t s) := by
  cases s with
  | operand frames =>
    simp only [finish]
    split
    · exact .inl rfl
    · exact .inr rfl
  | operator frames held =>
    apply (blames_of_tooComplex settle_ensures).bind
    rintro ⟨rest, r⟩ -
    dsimp only
    split
    · exact .inr rfl
    · trivial

/-- Steps fail at one of the tokens, after all tokens before it have been taken. -/
theorem steps_eq_error {s : State} {ts : List Token} {e : Located ReadError}
    (h : steps cap s ts = .error e) :
    ∃ w t after s', ts = w ++ t :: after ∧ steps cap s w = .ok s' ∧ step cap s' t = .error e := by
  induction ts generalizing s with
  | nil => cases h
  | cons t ts ih =>
    rw [steps_cons, bind_eq_error] at h
    rcases h with refused | ⟨next, taken, later⟩
    · exact ⟨[], t, ts, s, rfl, rfl, refused⟩
    · obtain ⟨w, u, after, s', rfl, steps, refused⟩ := ih later
      refine ⟨t :: w, u, after, s', rfl, ?_, refused⟩
      rw [steps_cons, taken]
      exact steps

/-- A name, which is an operand wherever one is due. -/
def anyName : Token := ⟨.identifier, "x", ⟨0, 1⟩⟩

def Enclosure.closing : Enclosure → Token
  | .group => ⟨.rightParen, ")", ⟨0, 1⟩⟩
  | .brackets _ _ => ⟨.rightBracket, "]", ⟨0, 1⟩⟩

def State.completion : State → List Token
  | .operand frames => anyName :: (enclosures frames).map Enclosure.closing
  | .operator frames _ => (enclosures frames).map Enclosure.closing

/-- The constructs that are open around an expression can be closed one after another. -/
theorem Opened.completion {es : List Enclosure} {before u : List Token} (opened : Opened es before)
    (whole : Derives .expression u) :
    Derives .expression (before ++ u ++ es.map Enclosure.closing) := by
  induction es generalizing before u with
  | nil =>
    cases opened
    simpa using whole
  | cons e es ih =>
    have closes : e.closing.kind = e.closer := by cases e <;> rfl
    obtain ⟨before', u', split, outer, wider⟩ := opened.close closes (fun _ => whole) (.place whole)
    have closed := ih outer wider
    rw [List.map_cons, List.append_cons, split]
    exact closed

/-- What has been read is the beginning of an expression. -/
theorem Viable.completion {s : State} (viable : Viable w s) :
    Derives .expression (w ++ s.completion) := by
  cases s with
  | operand frames =>
    obtain ⟨before, u, rfl, opened, awaits, -⟩ := viable
    have named : Derives .expression (u ++ [anyName]) := awaits.operand (.atom trivial)
    simpa [State.completion] using opened.completion named
  | operator frames held =>
    obtain ⟨before, u, rfl, opened, whole⟩ := viable
    exact opened.completion whole

theorem alone_of_mem_completion (s : State) : ∀ t ∈ s.completion, ∃ piece, t.Alone piece := by
  have closing (es : List Enclosure) :
      ∀ t ∈ es.map Enclosure.closing, ∃ piece, t.Alone piece := by
    intro t member
    obtain ⟨e, -, rfl⟩ := List.mem_map.mp member
    cases e with
    | group => exact ⟨[')'], _, _, _, rfl, rfl, rfl, rfl, rfl⟩
    | brackets object span => exact ⟨[']'], _, _, _, rfl, rfl, rfl, rfl, rfl⟩
  cases s with
  | operator frames held => exact closing _
  | operand frames =>
    intro t member
    rcases List.mem_cons.mp member with rfl | closes
    · exact ⟨['x'], _, _, _, rfl, rfl, rfl, rfl, by with_unfolding_all rfl⟩
    · exact closing _ t closes

/-- No places are needed to tell whether tokens form an expression. -/
theorem Derives.plain {p : Phrase} (h : Derives p w) : Derives p (w.map Token.plain) := by
  induction h with
  | alone _ ih => exact .alone ih
  | join _ op _ ihu ihw =>
    rw [List.map_append, List.map_cons]
    exact .join ihu op ihw
  | bare _ ih => exact .bare ih
  | signed sign _ ih => exact .signed sign ih
  | atom atom => exact .atom atom
  | group opens _ closes ih =>
    rw [List.map_append, List.map_cons]
    exact .group opens ih closes
  | index _ opens _ closes ihu ihw =>
    rw [List.map_append, List.map_append, List.map_cons]
    exact .index ihu opens ihw closes
  | place _ ih => exact .place ih
  | @unbounded w t name slice kind _ ih =>
    have named : name.plain.kind = .identifier := kind
    rw [List.map_append] at ih ⊢
    exact .unbounded slice named ih

/-- The tokens of an accepted source form an expression, wherever they stand. -/
theorem derives_of_parse {source : String} {arena : Arena}
    (accepted : Arena.parse source cap = .ok arena) :
    Derives .expression ((Scan.of source).tokens.map Token.plain) := by
  obtain ⟨e, accepted⟩ := Arena.exists_parse_eq_ok_iff.mp ⟨arena, accepted⟩
  have ran : run cap (Scan.of source).last (Scan.of source).tokens (.operand []) = .ok e := accepted
  obtain ⟨eof, last⟩ := last_of_run_eq_ok ran
  rw [last] at ran
  exact (derives_of_run ran).plain

theorem spelled_plain {source : String} :
    ∀ t ∈ (Scan.of source).tokens.map Token.plain, Spelled t.kind t.text := by
  intro t member
  obtain ⟨u, inside, rfl⟩ := List.mem_map.mp member
  have spelled : Spelled u.kind u.text := Scan.spelled_of_mem inside
  exact spelled

/-- Tokens that form an expression, wherever they stand, are read unless the cap is too low. -/
theorem run_of_derives_plain {source : String} (eof : Token)
    (derived : Derives .expression ((Scan.of source).tokens.map Token.plain)) :
    Ensures (fun _ => True) IsTooComplex
      (run cap (.ok eof) (Scan.of source).tokens (.operand [])) := by
  have read : Ensures (fun _ => True) IsTooComplex
      (run cap (.ok eof.plain) ((Scan.of source).tokens.map Token.plain) (.operand [])) :=
    run_of_derives derived spelled_plain
  rw [run_plain] at read
  exact read.of_relocate fun _ failed => failed

/-- Some source has the tokens that have been read, and it is accepted unless the cap is too low. -/
theorem exists_accepted {source : String} {before : List Token} {s : State}
    (tokens : ∀ t ∈ before, t ∈ (Scan.of source).tokens)
    (taken : steps cap (.operand []) before = .ok s) :
    ∃ source' least, Begins source' before ∧
      ∀ cap' ≥ least, ∃ arena, Arena.parse source' cap' = .ok arena := by
  have viable : Viable before s := viable_of_steps viable_nil taken
  have alone : ∀ t ∈ before ++ s.completion, ∃ piece, t.Alone piece := by
    intro t member
    rcases List.mem_append.mp member with first | last
    · exact ⟨_, Scan.alone_textIn ⟨[], rfl, rfl⟩ t (tokens t first)⟩
    · exact alone_of_mem_completion s t last
  obtain ⟨source', unplaced, eof', lexed⟩ := Scan.exists_of_alone alone
  have plain := Token.map_plain_of_map_unplaced unplaced
  refine ⟨source', (Scan.of source').tokens.length + 1, ⟨eof', lexed, ?_⟩, fun cap' room => ?_⟩
  · rw [List.map_append, plain, List.map_append, List.append_assoc]
    exact List.prefix_append _ _
  · have derived := viable.completion.plain
    rw [← plain] at derived
    obtain ⟨e, accepted, -⟩ := run_eq_ok_of_room room (run_of_derives_plain eof' derived)
    refine Arena.exists_parse_eq_ok_iff.mpr ⟨e, ?_⟩
    rw [Expr.parse, ofScan, lexed]
    exact accepted

/-- A refused token is refused wherever the tokens up to it are read. -/
theorem not_prefix_of_refused {s : State} {e : Located ReadError} {whole : List Token}
    (taken : steps cap (.operand []) w = .ok s) (refused : step cap s t = .error e)
    (other : ¬IsTooComplex e) (derived : Derives .expression whole)
    (spelled : ∀ t ∈ whole, Spelled t.kind t.text) : ¬(w ++ [t]).map Token.plain <+: whole := by
  rintro ⟨rest, rfl⟩
  let nowhere : Span → Span := fun _ => ⟨0, 0⟩
  have keeps : KeepsEmpty nowhere := fun _ => rfl
  have taken' : steps cap (.operand []) (w.map Token.plain) = .ok (s.mapSpan nowhere) :=
    (steps_mapSpan keeps (.operand []) w).trans (by rw [taken]; rfl)
  have refused' : step cap (s.mapSpan nowhere) t.plain = .error (e.mapSpan nowhere) :=
    (step_mapSpan keeps s).trans (by rw [refused]; rfl)
  have read : Ensures (Leaves []) IsTooComplex (steps cap (.operand []) _) :=
    reads_of_derives derived spelled cap []
  rw [List.map_append, List.append_assoc, steps_append, taken', List.map_singleton,
    List.singleton_append] at read
  change Ensures _ _ (step cap (s.mapSpan nowhere) t.plain >>= _) at read
  rw [refused'] at read
  exact other read

end Parse

/-- A token is the first one with which no expression continues the tokens before it. -/
structure Breaks (before : List Token) (t : Token) : Prop where
  /-- Some source that begins with the tokens before is accepted, unless the cap is too low. -/
  viable : ∃ source least, Begins source before ∧
    ∀ cap ≥ least, ∃ arena, Arena.parse source cap = .ok arena
  /-- Whatever the cap, no source that begins with all of them is accepted. -/
  refused : ∀ source cap arena, Arena.parse source cap = .ok arena → ¬Begins source (before ++ [t])

theorem Scan.kind_ne_eof_of_mem_plain {source : String} {t : Token}
    (member : t ∈ (Scan.of source).tokens.map Token.plain) : t.kind ≠ .eof := by
  obtain ⟨u, inside, rfl⟩ := List.mem_map.mp member
  have kind : u.kind ≠ .eof := kind_ne_eof_of_mem inside
  exact kind

/-- A source begins with some tokens and one more if it has all of these, or if it has no others and
ends. -/
theorem begins_concat {source : String} {before : List Token} {t : Token}
    (begins : Begins source (before ++ [t])) :
    (before ++ [t]).map Token.plain <+: (Scan.of source).tokens.map Token.plain ∨
      t.kind = .eof ∧ before.map Token.plain = (Scan.of source).tokens.map Token.plain := by
  obtain ⟨eof, last, start⟩ := begins
  have parts : ((Scan.of source).tokens ++ [eof]).map Token.plain =
      (Scan.of source).tokens.map Token.plain ++ [eof.plain] := List.map_append
  rw [parts] at start
  rcases List.prefix_concat_iff.mp start with same | inside
  · rw [List.map_append] at same
    obtain ⟨same, ends⟩ := List.append_inj' same rfl
    have plain : t.plain = eof.plain := List.singleton_inj.mp ends
    have kind : t.kind = eof.kind := (Token.mk.inj plain).1
    exact .inr ⟨kind.trans (Scan.kind_of_last last), same⟩
  · exact .inl inside

namespace Parse

variable {source : String} {eof t : Token} {w after : List Token} {s : State}
  {e : Located ReadError} {cap : Nat}

theorem breaks_of_step (split : (Scan.of source).tokens = w ++ t :: after)
    (taken : steps cap (.operand []) w = .ok s) (refused : step cap s t = .error e)
    (other : ¬IsTooComplex e) : Breaks w t := by
  have tokens : ∀ u ∈ w, u ∈ (Scan.of source).tokens := by
    intro u member
    rw [split]
    exact List.mem_append_left _ member
  have more : t.kind ≠ .eof := by
    apply Scan.kind_ne_eof_of_mem (c := .start source)
    rw [← Scan.of, split]
    exact List.mem_append_right _ (.head _)
  constructor
  · exact exists_accepted tokens taken
  · intro source' cap' arena accepted begins
    rcases begins_concat begins with inside | ⟨ends, -⟩
    · have derived := derives_of_parse accepted
      exact not_prefix_of_refused taken refused other derived spelled_plain inside
    · exact more ends

theorem breaks_of_finish (last : (Scan.of source).last = .ok eof)
    (taken : steps cap (.operand []) (Scan.of source).tokens = .ok s)
    (refused : finish cap eof s = .error e) (other : ¬IsTooComplex e) :
    Breaks (Scan.of source).tokens eof := by
  constructor
  · exact exists_accepted (fun u member => member) taken
  · intro source' cap' arena accepted begins
    have derived := derives_of_parse accepted
    rcases begins_concat begins with inside | ⟨-, same⟩
    · have member : eof.plain ∈ (Scan.of source').tokens.map Token.plain := by
        apply inside.subset
        simp
      have ends : eof.kind = .eof := Scan.kind_of_last last
      exact Scan.kind_ne_eof_of_mem_plain member ends
    · rw [← same] at derived
      have read : Ensures (fun _ => True) IsTooComplex
          (run cap (.ok eof) (Scan.of source).tokens (.operand [])) :=
        run_of_derives_plain eof derived
      rw [run_eq_steps, taken] at read
      change Ensures _ _ (finish cap eof s) at read
      rw [refused] at read
      exact other read

/-- A reading that fails for another reason than the cap breaks at the token that is to blame. -/
theorem exists_breaks (last : (Scan.of source).last = .ok eof)
    (failed : Expr.parse source cap = .error e) (other : ¬IsTooComplex e) :
    ∃ before t after, (Scan.of source).tokens ++ [eof] = before ++ t :: after ∧
      t.span = e.span ∧ Breaks before t := by
  rw [Expr.parse, ofScan, last, run_eq_steps, bind_eq_error] at failed
  rcases failed with refused | ⟨s, taken, refused⟩
  · obtain ⟨w, t, after, s, split, taken, refused⟩ := steps_eq_error refused
    have span : e.span = t.span := ((step_blames s).of_eq_error refused).resolve_left other
    refine ⟨w, t, after ++ [eof], ?_, span.symm, breaks_of_step split taken refused other⟩
    rw [split, List.append_assoc, List.cons_append]
  · have span : e.span = eof.span := ((finish_blames s).of_eq_error refused).resolve_left other
    exact ⟨_, eof, [], rfl, span.symm, breaks_of_finish last taken refused other⟩

end Parse

/-- A failure that is not for the cap is reported at the first token with which no expression
continues the tokens before it. -/
theorem Arena.parse_breaks {source : String} {cap : Nat} {eof : Token} {cause : ParseError}
    {span : Span} (lexed : (Scan.of source).last = .ok eof)
    (failed : Arena.parse source cap = .error (.failed (cause.atSpan span)))
    (other : cause ≠ .tooComplex) :
    (∃ t ∈ (Scan.of source).tokens ++ [eof], t.span = span) ∧
      ∀ before t after, (Scan.of source).tokens ++ [eof] = before ++ t :: after → t.span = span →
        Breaks before t := by
  have simple : ¬Parse.IsTooComplex (cause.atSpan span) := fun complex =>
    other (ReadError.grammatical.inj complex)
  obtain ⟨before, t, after, split, place, breaks⟩ :=
    Parse.exists_breaks lexed (Arena.parse_eq_failed_iff.mp failed) simple
  constructor
  · refine ⟨t, ?_, place⟩
    rw [split]
    exact List.mem_append_right _ (.head _)
  · intro before' t' after' split' place'
    obtain ⟨rfl, rfl⟩ := Scan.eq_of_span_eq lexed split split' (place.trans place'.symm)
    exact breaks

/-- What is open in the source below when its bracket is closed too early. -/
def openSum : List Token :=
  [⟨.identifier, "x", ⟨0, 1⟩⟩, ⟨.leftBracket, "[", ⟨1, 1⟩⟩, ⟨.leftParen, "(", ⟨2, 1⟩⟩,
    ⟨.number, "1", ⟨3, 1⟩⟩, ⟨.addSub, "+", ⟨5, 1⟩⟩]

theorem Arena.parse_breaks_openSum :
    (Scan.of "x[(1 + ] * y").last = .ok (⟨.eof, "", ⟨12, 0⟩⟩ : Token) ∧
      Arena.parse "x[(1 + ] * y" 9 =
        .error (.failed ((ParseError.unexpected .rightBracket).atSpan ⟨7, 1⟩)) ∧
      ParseError.unexpected .rightBracket ≠ .tooComplex ∧
      Breaks openSum ⟨.rightBracket, "]", ⟨7, 1⟩⟩ := by
  have lexed : (Scan.of "x[(1 + ] * y").last = .ok ⟨.eof, "", ⟨12, 0⟩⟩ := by with_unfolding_all rfl
  have parsed : Expr.parse "x[(1 + ] * y" 9 =
      .error ((ParseError.unexpected .rightBracket).atSpan ⟨7, 1⟩) := by
    with_unfolding_all rfl
  have failed := Arena.parse_eq_failed_iff.mpr parsed
  have other : ParseError.unexpected .rightBracket ≠ .tooComplex := by decide
  have split : (Scan.of "x[(1 + ] * y").tokens ++ [(⟨.eof, "", ⟨12, 0⟩⟩ : Token)] =
      openSum ++ ⟨.rightBracket, "]", ⟨7, 1⟩⟩ ::
        [⟨.mulDiv, "*", ⟨9, 1⟩⟩, ⟨.identifier, "y", ⟨11, 1⟩⟩, ⟨.eof, "", ⟨12, 0⟩⟩] := by
    with_unfolding_all rfl
  exact ⟨lexed, failed, other, (Arena.parse_breaks lexed failed other).2 _ _ _ split rfl⟩

end JsonQuery
