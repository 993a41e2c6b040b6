import QueryScribe.Text.Blank
import QueryScribe.Text.Digits

/-!
# String literals in generated code

A string stands in generated code as an interpreted string literal: between
double quotes, with the escapes of the language.  A character stands for itself
when it is printable in the sense of `isPrintable`; the others have a letter of
their own or are written by their code point, in two, four or eight digits.
-/

namespace QueryScribe.StringLiteral

open QueryScribe.Text

/-- Format characters that render as nothing. -/
def invisible : Ranges :=
  [(0xad, 0xad), (0x200b, 0x200f), (0x2028, 0x202e), (0x2060, 0x2064), (0xfeff, 0xfeff)]

/-- C0 controls, delete and C1 controls. -/
def isControl (c : Char) : Bool := c.toNat < 0x20 || (0x7f ≤ c.toNat && c.toNat < 0xa0)

def isPrintable (c : Char) : Bool :=
  c = ' ' || !(isControl c || isBlank c || invisible.has c)

/-- The letter that names a character after a backslash, where there is one. -/
def escapeLetter? (c : Char) : Option Char :=
  if c = '"' then some '"'
  else if c = '\\' then some '\\'
  else if c = '\x07' then some 'a'
  else if c = '\x08' then some 'b'
  else if c = '\x0c' then some 'f'
  else if c = '\n' then some 'n'
  else if c = '\r' then some 'r'
  else if c = '\t' then some 't'
  else if c = '\x0b' then some 'v'
  else none

def writeChar (c : Char) : List Char :=
  match escapeLetter? c with
  | some e => ['\\', e]
  | none =>
    if isPrintable c then [c]
    else if c.toNat < 0x80 then '\\' :: 'x' :: hexFixed 2 c.toNat
    else if c.toNat < 0x10000 then '\\' :: 'u' :: hexFixed 4 c.toNat
    else '\\' :: 'U' :: hexFixed 8 c.toNat

def write (s : String) : List Char := '"' :: s.toList.flatMap writeChar ++ ['"']

end QueryScribe.StringLiteral

namespace QueryScribe

def quote (s : String) : String := String.ofList (StringLiteral.write s)

end QueryScribe
