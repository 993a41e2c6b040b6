import QueryScribe.Text.Blank
import QueryScribe.Text.Digits
import QueryScribe.Text.Unseen

/-!
# Layout of generated code

Generated code comes with its line breaks but without indentation.  `Layout.format`
checks that every bracket is closed by its own kind and then indents: a line has
one tab for each earlier line that still has a bracket open after the closers that
the line starts with, and one more when an earlier line outside all brackets ended
in a point, since the lines after it go on with a chain of calls.  Brackets in
literals and comments do not count, and a literal must end on its line.

The pass goes over the lines once.  It does not look for those lines among the open
brackets: beside the brackets it keeps a count for each of them, which goes down with
every closer and is dropped when it is used up.
-/

namespace QueryScribe.Layout

open QueryScribe.Text

/-! ### Brackets of a line -/

def isOpener (c : Char) : Bool := c = '(' || c = '[' || c = '\x7b'

def isCloser (c : Char) : Bool := c = ')' || c = ']' || c = '\x7d'

def closerFor (c : Char) : Char := if c = '(' then ')' else if c = '[' then ']' else '\x7d'

/-- A literal that does not end on its line. -/
inductive OpenLiteral where
  /-- A string or a character. -/
  | quoted
  /-- A string between grave accents. -/
  | raw
  deriving DecidableEq, Repr

mutual
/-- The brackets of a line, outside literals and comments. -/
def scan : List Char → Except OpenLiteral (List Char)
  | [] => .ok []
  | c :: r =>
    if isOpener c || isCloser c then (scan r).map (c :: ·)
    else if c = '"' || c = '\'' then scanQuoted c r
    else if c = '\x60' then scanRaw r
    else if c = '/' && r.head? = some '/' then .ok []
    else scan r
def scanQuoted (quote : Char) : List Char → Except OpenLiteral (List Char)
  | [] => .error .quoted
  | c :: r =>
    if c = '\\' then scanEscaped quote r
    else if c = quote then scan r
    else scanQuoted quote r
/-- The brackets after a literal of which a backslash has just been read. -/
def scanEscaped (quote : Char) : List Char → Except OpenLiteral (List Char)
  | [] => .error .quoted
  | _ :: r => scanQuoted quote r
def scanRaw : List Char → Except OpenLiteral (List Char)
  | [] => .error .raw
  | c :: r => if c = '\x60' then scan r else scanRaw r
end

/-! ### Faults -/

/-- A count of the pass that fails.  No text makes one fail. -/
inductive Lapse where
  /-- A bracket is closed on a line of which none is counted as open. -/
  | underflow
  /-- A line starts with more closers than it has brackets. -/
  | outOfRange
  deriving DecidableEq, Repr

inductive Fault where
  | openLiteral (line : Nat) (literal : OpenLiteral)
  | unexpected (line : Nat) (closer : Char)
  | mismatch (line : Nat) (closer opener : Char) (openedOn : Nat)
  | unclosed (opener : Char) (openedOn : Nat)
  | lapse (line : Nat) (lapse : Lapse)
  deriving DecidableEq, Repr

namespace Fault

def render : Fault → List Char
  | openLiteral line .quoted => "line ".toList ++ decimal line ++ ": unterminated literal".toList
  | openLiteral line .raw => "line ".toList ++ decimal line ++ ": unterminated raw string".toList
  | unexpected line closer =>
    "line ".toList ++ decimal line ++ ": unexpected ".toList ++ shownBracket closer
  | mismatch line closer opener openedOn =>
    "line ".toList ++ decimal line ++ ": ".toList ++ shownBracket closer
      ++ " does not match ".toList ++ shownBracket opener ++ " opened on line ".toList
      ++ decimal openedOn
  | unclosed opener openedOn =>
    "unclosed ".toList ++ shownBracket opener ++ " opened on line ".toList ++ decimal openedOn
  | lapse line .underflow =>
    "line ".toList ++ decimal line ++ ": count of open brackets below zero".toList
  | lapse line .outOfRange =>
    "line ".toList ++ decimal line ++ ": more leading closers than brackets".toList

def message (f : Fault) : String := String.ofList f.render

end Fault

/-! ### Open brackets -/

/-- A bracket that is still open, and the line on which it was opened. -/
structure Open where
  opener : Char
  line : Nat
  deriving DecidableEq, Repr

/-- A closer takes off the innermost open bracket, which must be of its kind. -/
def close (line : Nat) (closer : Char) : List Open → Except Fault (List Open)
  | [] => .error (.unexpected line closer)
  | o :: r =>
    if closerFor o.opener = closer then .ok r
    else .error (.mismatch line closer o.opener o.line)

/-- One bracket less on the last line that has some open. -/
def release (line : Nat) : List Nat → Except Fault (List Nat)
  | [] => .ok []
  | 0 :: _ => .error (.lapse line .underflow)
  | (n + 1) :: r => .ok (if n = 0 then r else n :: r)

/-! ### Brackets of a line -/

/-- What has been read of a line: the open brackets, the innermost first, how many of them each
earlier line opened, the last such line first, and how many the line itself did. -/
structure Progress where
  stack : List Open
  groups : List Nat
  own : Nat
  deriving DecidableEq, Repr

/-- A closer that the line starts with. -/
def closeLeading (line : Nat) (p : Progress) (closer : Char) : Except Fault Progress := do
  let stack ← close line closer p.stack
  let groups ← release line p.groups
  return { p with stack, groups }

/-- A bracket of the rest of the line.  A closer is counted on the line itself if that has a
bracket open. -/
def readBracket (line : Nat) (p : Progress) (c : Char) : Except Fault Progress :=
  if isCloser c then do
    let stack ← close line c p.stack
    if 0 < p.own then return { p with stack, own := p.own - 1 }
    else do
      let groups ← release line p.groups
      return { p with stack, groups }
  else .ok { p with stack := ⟨c, line⟩ :: p.stack, own := p.own + 1 }

/-! ### The pass over the lines -/

/-- What earlier lines leave behind: the open brackets, the innermost first, how many of them each
line opened, the last such line first, and whether a chain of calls goes on. -/
structure State where
  stack : List Open
  groups : List Nat
  chained : Bool
  deriving DecidableEq, Repr

namespace State

def start : State := ⟨[], [], false⟩

end State

/-- A trimmed line with its tabs; a blank line has none. -/
def indent (tabs : Nat) (line : List Char) : List Char :=
  if line.isEmpty then [] else List.replicate tabs '\t' ++ line

/-- One line, given its number: the line with its tabs, and what it leaves behind. -/
def passLine (number : Nat) (s : State) (line : List Char) :
    Except Fault (List Char × State) := do
  let text := trim line
  let brackets ← (scan text).mapError (Fault.openLiteral number)
  let leading := (text.takeWhile isCloser).length
  if brackets.length < leading then throw (.lapse number .outOfRange)
  let outer ← (brackets.take leading).foldlM (closeLeading number) ⟨s.stack, s.groups, 0⟩
  let last ← (brackets.drop leading).foldlM (readBracket number) outer
  let tabs := (if s.chained then 1 else 0) + outer.groups.length
  let groups := if 0 < last.own then last.own :: last.groups else last.groups
  let chained := s.chained || (last.stack.isEmpty && text.getLast? = some '.')
  return (indent tabs text, ⟨last.stack, groups, chained⟩)

/-- Some lines, given the number of the first: the lines with their tabs, and what they leave
behind. -/
def passLines (number : Nat) (s : State) :
    List (List Char) → Except Fault (List (List Char) × State)
  | [] => .ok ([], s)
  | line :: r => do
    let (text, s) ← passLine number s line
    let (texts, s) ← passLines (number + 1) s r
    return (text :: texts, s)

/-- The lines of a text; a line break at its end starts no further line. -/
def rows : List Char → List (List Char)
  | [] => []
  | c :: r =>
    if c = '\n' then [] :: rows r
    else match rows r with
      | [] => [[c]]
      | l :: ls => (c :: l) :: ls

/-- A text with its indentation, and without blank lines at its start and end. -/
def format (raw : List Char) : Except Fault (List Char) := do
  let (texts, s) ← passLines 1 .start (rows raw)
  match s.stack with
  | [] => return trim (['\n'].intercalate texts)
  | o :: _ => throw (.unclosed o.opener o.line)

end QueryScribe.Layout
