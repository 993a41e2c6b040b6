import QueryScribe.Json.Reader
import QueryScribe.Text.Blank

/-!
# Tokens of selectors

The text of a selector is cut into words, whole numbers, strings, dots and single
marks.  A dot and a word directly behind it are one token, the name of a field.
The text is read from left to right, one character at a time; blanks and comments
part tokens and are dropped.
-/

namespace QueryScribe.Selector

open QueryScribe.Text

inductive Token where
  /-- A dot before anything but a word. -/
  | dot
  /-- A dot and the word directly behind it. -/
  | field (name : String)
  | word (name : String)
  | integer (i : Int)
  | string (s : String)
  /-- A bracket, a brace, a comma, a bar, a question mark or a colon. -/
  | mark (c : Char)
  deriving DecidableEq, Repr

namespace Token

inductive Mode where
  | between
  | comment
  /-- A dot, which a word may follow. -/
  | dot
  | field (reversed : List Char)
  | word (reversed : List Char)
  /-- A minus sign, which a digit must follow. -/
  | minus
  | number (negative : Bool) (value : Nat)
  | text (p : Json.Partial)

/-- The tokens so far, the last one first, and what is being read. -/
structure State where
  done : List Token
  mode : Mode

def startsWord (c : Char) : Bool := c.isAlpha || c = '_'

def isMark (c : Char) : Bool := c ∈ ['[', ']', '\x7b', '\x7d', ',', '|', '?', ':']

def start? (done : List Token) (c : Char) : Option State :=
  if isBlank c then some ⟨done, .between⟩
  else if c = '#' then some ⟨done, .comment⟩
  else if c = '.' then some ⟨done, .dot⟩
  else if isMark c then some ⟨.mark c :: done, .between⟩
  else if startsWord c then some ⟨done, .word [c]⟩
  else if c.isDigit then some ⟨done, .number false (Json.Numeral.digit c)⟩
  else if c = '-' then some ⟨done, .minus⟩
  else if c = '"' then some ⟨done, .text .start⟩
  else none

def ofReversed (cs : List Char) : Token := .word (String.ofList cs.reverse)

def fieldOfReversed (cs : List Char) : Token := .field (String.ofList cs.reverse)

def ofDigits (negative : Bool) (value : Nat) : Token :=
  .integer (if negative then -(value : Int) else value)

def step? (s : State) (c : Char) : Option State :=
  match s.mode with
  | .between => start? s.done c
  | .comment => if c = '\n' then some ⟨s.done, .between⟩ else some s
  | .dot =>
    if startsWord c then some ⟨s.done, .field [c]⟩
    else if c = '.' then none
    else start? (.dot :: s.done) c
  | .field cs =>
    if startsWord c || c.isDigit then some ⟨s.done, .field (c :: cs)⟩
    else start? (fieldOfReversed cs :: s.done) c
  | .word cs =>
    if startsWord c || c.isDigit then some ⟨s.done, .word (c :: cs)⟩
    else start? (ofReversed cs :: s.done) c
  | .minus =>
    if c.isDigit then some ⟨s.done, .number true (Json.Numeral.digit c)⟩ else none
  | .number negative value =>
    if c.isDigit then some ⟨s.done, .number negative (10 * value + Json.Numeral.digit c)⟩
    else start? (ofDigits negative value :: s.done) c
  | .text p =>
    match p.extend c with
    | .ok (some p) => some ⟨s.done, .text p⟩
    | .ok none => some ⟨.string p.text :: s.done, .between⟩
    | .error _ => none

def finish? (s : State) : Option (List Token) :=
  match s.mode with
  | .between | .comment => some s.done.reverse
  | .dot => some (.dot :: s.done).reverse
  | .field cs => some (fieldOfReversed cs :: s.done).reverse
  | .word cs => some (ofReversed cs :: s.done).reverse
  | .number negative value => some (ofDigits negative value :: s.done).reverse
  | .minus | .text _ => none

def read? (text : List Char) : Option (List Token) :=
  (text.foldlM step? ⟨[], .between⟩).bind finish?

end Token

end QueryScribe.Selector
