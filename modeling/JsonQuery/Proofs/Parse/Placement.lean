import JsonQuery.Expr.Listing
import JsonQuery.Proofs.Parse.Relocation
import JsonQuery.Proofs.Token.Placement

/-! Where nodes and failures stand. A reading knows no places but those of its tokens: if all places
that are no good were exchanged for good ones, the tokens would stay what they are, and so the
expression or the failure stays what it is. -/
namespace JsonQuery

variable {f : Span → Span} {text : List Char}

def Row.mapSpan (f : Span → Span) (r : Row) : Row := ⟨r.label, r.children, f r.span⟩

theorem Expr.size_mapSpan (e : Expr) : (e.mapSpan f).size = e.size := by
  induction e with
  | literal value span | identifier name span => rfl
  | unary op a span ih => simp only [mapSpan, size, ih]
  | field a b span iha ihb | index a b span iha ihb | slice a b span iha ihb
  | binary op a b span iha ihb | filter a b span iha ihb => simp only [mapSpan, size, iha, ihb]

theorem Expr.depth_mapSpan (e : Expr) : (e.mapSpan f).depth = e.depth := by
  induction e with
  | literal value span | identifier name span => rfl
  | unary op a span ih => simp only [mapSpan, depth, ih]
  | field a b span iha ihb | index a b span iha ihb | slice a b span iha ihb
  | binary op a b span iha ihb | filter a b span iha ihb => simp only [mapSpan, depth, iha, ihb]

theorem Expr.rowsFrom_mapSpan (e : Expr) (start : Nat) :
    (e.mapSpan f).rowsFrom start = (e.rowsFrom start).map (Row.mapSpan f) := by
  induction e generalizing start with
  | literal value span | identifier name span => rfl
  | unary op a span ih =>
    simp only [mapSpan, rowsFrom, ih, List.map_append, size_mapSpan]
    rfl
  | field a b span iha ihb | index a b span iha ihb | slice a b span iha ihb
  | binary op a b span iha ihb | filter a b span iha ihb =>
    simp only [mapSpan, rowsFrom, iha, ihb, List.map_append, size_mapSpan]
    rfl

namespace Parse

open Classical in
/-- A span that is no good is exchanged for the place where it begins, or else for the beginning of
the text. -/
noncomputable def clamp (text : List Char) (s : Span) : Span :=
  if s.Within text then s
  else if Span.Within ⟨s.offset, 0⟩ text then ⟨s.offset, 0⟩
  else ⟨0, 0⟩

theorem clamp_of_within {s : Span} (h : s.Within text) : clamp text s = s := if_pos h

theorem clamp_within (text : List Char) (s : Span) : (clamp text s).Within text := by
  unfold clamp
  split
  · assumption
  split
  · assumption
  · exact ⟨[], [], text, rfl, rfl, rfl⟩

theorem keepsEmpty_clamp (text : List Char) : KeepsEmpty (clamp text) := by
  intro s
  by_cases start : Span.Within ⟨s.offset, 0⟩ text
  · rw [clamp_of_within start]
    by_cases within : s.Within text
    · rw [clamp_of_within within]
    · simp only [clamp, within, start, if_true, if_false]
  · have outside : ¬s.Within text := fun h => start h.start
    simp only [clamp, start, outside, if_false]

/-- Every node and every failure of a reading covers whole characters of the text. -/
theorem run_within {cap : Nat} {last : Except (Located LexError) Token} {ts : List Token}
    (tokens : ∀ t ∈ ts, t.span.Within text)
    (ends : Ensures (fun t => t.span.Within text) (fun e => e.span.Within text) last) :
    Ensures (fun e : Expr => ∀ r ∈ e.rows, r.span.Within text) (fun e => e.span.Within text)
      (run cap last ts (.operand [])) := by
  have same (t : Token) (within : t.span.Within text) : t.mapSpan (clamp text) = t := by
    rw [Token.mapSpan, clamp_of_within within]
  have sameTokens : ts.map (Token.mapSpan (clamp text)) = ts := by
    rw [List.map_congr_left fun t member => same t (tokens t member), List.map_id']
  have sameLast : relocate (clamp text) (Token.mapSpan (clamp text)) last = last := by
    cases last with
    | ok t => exact congrArg Except.ok (same t ends)
    | error e =>
      rw [relocate, Located.mapSpan, clamp_of_within ends]
  have read : run cap last ts (.operand []) =
      relocate (clamp text) (Expr.mapSpan (clamp text)) (run cap last ts (.operand [])) := by
    have relocated : run cap _ _ _ = _ :=
      run_relocate (keepsEmpty_clamp text) last ts (.operand [])
    rwa [sameTokens, sameLast] at relocated
  cases ran : run cap last ts (.operand []) with
  | ok e =>
    rw [ran] at read
    intro r member
    have fixed : e = e.mapSpan (clamp text) := Except.ok.inj read
    rw [Expr.rows, fixed, Expr.rowsFrom_mapSpan] at member
    obtain ⟨r', _, rfl⟩ := List.mem_map.mp member
    exact clamp_within text r'.span
  | error e =>
    rw [ran] at read
    have fixed : e = e.mapSpan (clamp text) := Except.error.inj read
    rw [fixed]
    exact clamp_within text e.span

end Parse

/-- What is read from a source, or fails to be read, stands on whole characters of it. -/
theorem Expr.parse_within (source : String) (cap : Nat) :
    Ensures (fun e : Expr => ∀ r ∈ e.rows, r.span.Within source.toList)
      (fun f => f.span.Within source.toList) (Expr.parse source cap) :=
  Parse.run_within (Scan.within source).1 (Scan.within source).2

end JsonQuery
