import QueryScribe.Double.Layout
import QueryScribe.Json.Basic

/-!
# JSON text

`Json.compact` writes a tree on one line without spaces, and `Json.pretty` with
one element or member to a line, two spaces deeper than what holds it.  Strings
escape only quotes, backslashes and controls; everything else stands for itself.
-/

namespace QueryScribe.Json

open QueryScribe.Text

/-- One character of a string. -/
def escape (c : Char) : List Char :=
  if c = '"' then ['\\', '"']
  else if c = '\\' then ['\\', '\\']
  else if c = '\x08' then ['\\', 'b']
  else if c = '\x0c' then ['\\', 'f']
  else if c = '\n' then ['\\', 'n']
  else if c = '\r' then ['\\', 'r']
  else if c = '\t' then ['\\', 't']
  else if c.toNat < 0x20 then '\\' :: 'u' :: hexFixed 4 c.toNat
  else [c]

def writeString (s : String) : List Char := '"' :: s.toList.flatMap escape ++ ['"']

def writeNumber : JsonNumber → List Char
  | .integer i => signed i
  | .double negative x => Double.writeFinite .json negative x

def writeBool (b : Bool) : List Char := if b then "true".toList else "false".toList

mutual
def compact : Json → List Char
  | .null => "null".toList
  | .bool b => writeBool b
  | .number n => writeNumber n
  | .string s => writeString s
  | .array items => '[' :: [','].intercalate (compactItems items) ++ [']']
  | .object members => '\x7b' :: [','].intercalate (compactMembers members) ++ ['\x7d']
def compactItems : List Json → List (List Char)
  | [] => []
  | j :: r => compact j :: compactItems r
def compactMembers : List (String × Json) → List (List Char)
  | [] => []
  | (k, j) :: r => (writeString k ++ ':' :: compact j) :: compactMembers r
end

def newline (depth : Nat) : List Char := '\n' :: List.replicate (2 * depth) ' '

/-- Parts on lines of their own between brackets, or the bare brackets. -/
def enclose (depth : Nat) (left right : Char) (parts : List (List Char)) : List Char :=
  match parts with
  | [] => [left, right]
  | _ =>
    left :: newline (depth + 1) ++ (',' :: newline (depth + 1)).intercalate parts
      ++ newline depth ++ [right]

mutual
def prettyAt (depth : Nat) : Json → List Char
  | .null => "null".toList
  | .bool b => writeBool b
  | .number n => writeNumber n
  | .string s => writeString s
  | .array items => enclose depth '[' ']' (prettyItems (depth + 1) items)
  | .object members => enclose depth '\x7b' '\x7d' (prettyMembers (depth + 1) members)
def prettyItems (depth : Nat) : List Json → List (List Char)
  | [] => []
  | j :: r => prettyAt depth j :: prettyItems depth r
def prettyMembers (depth : Nat) : List (String × Json) → List (List Char)
  | [] => []
  | (k, j) :: r => (writeString k ++ ':' :: ' ' :: prettyAt depth j) :: prettyMembers depth r
end

def pretty (j : Json) : List Char := prettyAt 0 j

end QueryScribe.Json
