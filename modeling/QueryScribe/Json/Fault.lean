import QueryScribe.Text.Digits

/-!
# What can be wrong with JSON text

A `Fault` is a reason to refuse a text, and a `Failure` is a fault with the place
at which reading stopped: the indices and keys on the way from the root.  A
message names the place unless the fault is at the root.
-/

namespace QueryScribe.Json

inductive Fault where
  | endOfValue
  | endOfList
  | endOfObject
  | endOfString
  | expectedValue
  | expectedIdentifier
  | invalidNumber
  | numberOutOfRange
  | invalidEscape
  | loneSurrogate
  | unpairedSurrogate
  | controlCharacter
  | expectedColon
  | expectedCommaOrBracket
  | expectedCommaOrBrace
  | trailingComma
  | keyNotString
  | trailingCharacters
  | tooDeep
  /-- An object that has the key of a special value and does not spell one. -/
  | invalidExtended
  deriving DecidableEq, Repr

namespace Fault

def message : Fault → String
  | endOfValue => "EOF while parsing a value"
  | endOfList => "EOF while parsing a list"
  | endOfObject => "EOF while parsing an object"
  | endOfString => "EOF while parsing a string"
  | expectedValue => "expected value"
  | expectedIdentifier => "expected ident"
  | invalidNumber => "invalid number"
  | numberOutOfRange => "number out of range"
  | invalidEscape => "invalid escape"
  | loneSurrogate => "lone leading surrogate in hex escape"
  | unpairedSurrogate => "unexpected end of hex escape"
  | controlCharacter => "control character (\\u0000-\\u001F) found while parsing a string"
  | expectedColon => "expected \x60:\x60"
  | expectedCommaOrBracket => "expected \x60,\x60 or \x60]\x60"
  | expectedCommaOrBrace => "expected \x60,\x60 or \x60\x7d\x60"
  | trailingComma => "trailing comma"
  | keyNotString => "key must be a string"
  | trailingCharacters => "trailing characters"
  | tooDeep => "recursion limit exceeded"
  | invalidExtended => "invalid extended JSON"

end Fault

/-- A step from a container toward a place inside it. -/
inductive Segment where
  /-- Into an element of an array. -/
  | index (i : Nat)
  /-- Into the value of a key. -/
  | member (key : String)
  /-- To a place where a key should stand. -/
  | key
  deriving DecidableEq, Repr

namespace Segment

/-- A step in words, without what joins it to the steps before. -/
def render : Segment → List Char
  | index i => '[' :: Text.decimal i ++ [']']
  | member name => name.toList
  | key => ['?']

/-- A step in words after other steps: a point joins a key to them. -/
def renderNext : Segment → List Char
  | index i => render (index i)
  | s => '.' :: render s

end Segment

/-- A path in words; the root is a point. -/
def renderPath : List Segment → List Char
  | [] => ['.']
  | s :: r => s.render ++ r.flatMap Segment.renderNext

structure Failure where
  path : List Segment
  fault : Fault
  deriving DecidableEq, Repr

namespace Failure

def message (f : Failure) : String :=
  let path := renderPath f.path
  if path = ['.'] then f.fault.message
  else "at JSON path " ++ String.ofList path ++ " → " ++ f.fault.message

end Failure

end QueryScribe.Json
