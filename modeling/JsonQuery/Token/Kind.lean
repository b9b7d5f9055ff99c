/-! The classes of tokens. Operators that bind equally share a class, and the text of the token
tells them apart. -/
namespace JsonQuery

inductive TokenKind where
  | identifier
  | number
  | string
  | dot
  | leftParen
  | rightParen
  | leftBracket
  | rightBracket
  | slice
  | addSub
  | mulDiv
  | power
  | comparison
  | and
  | or
  | not
  | stringCompare
  | filter
  | eof
deriving DecidableEq

def TokenKind.name : TokenKind → String
  | .identifier => "identifier"
  | .number => "number"
  | .string => "string"
  | .dot => "dot"
  | .leftParen => "left-paren"
  | .rightParen => "right-paren"
  | .leftBracket => "left-bracket"
  | .rightBracket => "right-bracket"
  | .slice => "slice"
  | .addSub => "add-sub"
  | .mulDiv => "mul-div"
  | .power => "power"
  | .comparison => "comparison"
  | .and => "and"
  | .or => "or"
  | .not => "not"
  | .stringCompare => "string-compare"
  | .filter => "where"
  | .eof => "eof"

end JsonQuery
