import JsonQuery.Json.Token

/-! Reading JSON text. The containers that are still open form a stack, and every token moves the
reader between the places where a value, a key, a colon or the next item is due. -/
namespace JsonQuery.Json

/-- A container that is still open, with what it holds so far. The items are in reverse. -/
inductive Open where
  | array (items : List Json)
  | object (fields : List (String × Json)) (key : String)

inductive Due where
  | value (frames : List Open)
  | firstItem (frames : List Open)
  | firstKey (frames : List Open)
  | key (fields : List (String × Json)) (frames : List Open)
  | colon (fields : List (String × Json)) (key : String) (frames : List Open)
  | next (value : Json) (frames : List Open)

def nestingLimit : Nat := 127

/-- A token where a value is due. -/
def begin? (frames : List Open) : Token → Option Due
  | .scalar j => some (.next j frames)
  | .string s => some (.next (.string s) frames)
  | .openArray => if frames.length < nestingLimit then some (.firstItem frames) else none
  | .openObject => if frames.length < nestingLimit then some (.firstKey frames) else none
  | _ => none

def Due.step? : Due → Token → Option Due
  | .value frames, t => begin? frames t
  | .firstItem frames, .closeArray => some (.next (.array []) frames)
  | .firstItem frames, t => begin? (.array [] :: frames) t
  | .firstKey frames, .closeObject => some (.next (.object []) frames)
  | .firstKey frames, .string k => some (.colon [] k frames)
  | .key fields frames, .string k => some (.colon fields k frames)
  | .colon fields k frames, .colon => some (.value (.object fields k :: frames))
  | .next j (.array items :: frames), .comma => some (.value (.array (j :: items) :: frames))
  | .next j (.array items :: frames), .closeArray =>
    some (.next (.array (j :: items).reverse) frames)
  | .next j (.object fields k :: frames), .comma => some (.key (Fields.put k j fields) frames)
  | .next j (.object fields k :: frames), .closeObject =>
    some (.next (.object (Fields.put k j fields)) frames)
  | _, _ => none

/-- Reads all remaining tokens, after which nothing may be due. -/
def run? : List Token → Due → Option Json
  | [], .next j [] => some j
  | [], _ => none
  | t :: ts, due => (due.step? t).bind (run? ts)

/-- Reads a whole text as one document. A key that comes again keeps its place and takes the later
value. -/
def read? (text : String) : Option Json :=
  (tokens? text.toList).bind fun ts => run? ts (.value [])

end JsonQuery.Json

namespace JsonQuery.Value

def ofJsonText? (text : String) : Option Value := (Json.read? text).map Json.toValue

end JsonQuery.Value
