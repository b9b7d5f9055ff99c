import JsonQuery.Json.Basic
import JsonQuery.Number.Notation
import JsonQuery.Text.Layout

/-! The text of a document, as other programs exchange it. Only what JSON demands is escaped, and
numbers are in interchange notation. -/
namespace JsonQuery.Json

def escape (c : Char) : List Char :=
  if c == '"' then ['\\', '"']
  else if c == '\\' then ['\\', '\\']
  else if c == '\x08' then ['\\', 'b']
  else if c == '\x0c' then ['\\', 'f']
  else if c == '\n' then ['\\', 'n']
  else if c == '\r' then ['\\', 'r']
  else if c == '\t' then ['\\', 't']
  else if c.toNat < 0x20 then Text.codeEscape c
  else [c]

def quote (s : String) : List Char := Text.quoted escape s.toList

def integerText (n : Int) : List Char :=
  (if n < 0 then ['-'] else []) ++ Number.digitsText n.natAbs

mutual

def write (l : Layout) (depth : Nat) : Json → List Char
  | null => ['n', 'u', 'l', 'l']
  | boolean true => ['t', 'r', 'u', 'e']
  | boolean false => ['f', 'a', 'l', 's', 'e']
  | integer n => integerText n
  | real n => Number.interchange n
  | string s => quote s
  | array items => l.container depth '[' ']' (writeItems l (depth + 1) items)
  | object fields => l.container depth '{' '}' (writeFields l (depth + 1) fields)

def writeItems (l : Layout) (depth : Nat) : List Json → List (List Char)
  | [] => []
  | j :: js => write l depth j :: writeItems l depth js

def writeFields (l : Layout) (depth : Nat) : List (String × Json) → List (List Char)
  | [] => []
  | (k, j) :: fields => (quote k ++ l.colon ++ write l depth j) :: writeFields l depth fields

end

def text (l : Layout) (j : Json) : String := String.ofList (j.write l 0)

end JsonQuery.Json
