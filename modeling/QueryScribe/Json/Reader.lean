import QueryScribe.Json.Basic
import QueryScribe.Json.Fault

/-!
# Reading JSON

The text is read from left to right, one character at a time, by a machine whose
stack holds the open arrays and objects.  What it builds is left open: an
`Assembly` says what to make of each piece as soon as it has been read, and may
refuse an object.  So a text with two faults is refused for the one that comes
first, and the place of a fault is read off the stack.
-/

namespace QueryScribe.Json

open QueryScribe.Text

/-- What to make of the pieces of a JSON text.  An object may be refused. -/
structure Assembly (α : Type) where
  null : α
  bool : Bool → α
  number : JsonNumber → α
  string : String → α
  array : List α → α
  object : List (String × α) → Option α

namespace Assembly

def tree : Assembly Json := ⟨.null, .bool, .number, .string, .array, fun m => some (.object m)⟩

end Assembly

/-! ### Numerals -/

inductive NumeralPhase where
  /-- A minus sign. -/
  | sign
  /-- A zero that no digit may follow. -/
  | zero
  | whole
  /-- A point that a digit must follow. -/
  | point
  | fraction
  /-- The mark of a power that a sign or digit must follow. -/
  | mark
  /-- The sign of a power that a digit must follow. -/
  | powerSign
  | power
  deriving DecidableEq

structure Numeral where
  phase : NumeralPhase
  negative : Bool
  /-- The digits so far, read as one whole number. -/
  digits : Nat
  /-- How many of the digits stand after the point. -/
  places : Nat
  negativePower : Bool
  power : Nat

namespace Numeral

def digit (c : Char) : Nat := c.toNat - '0'.toNat

/-- The numeral that a character begins, if it begins one. -/
def start? (c : Char) : Option Numeral :=
  if c = '-' then some ⟨.sign, true, 0, 0, false, 0⟩
  else if c = '0' then some ⟨.zero, false, 0, 0, false, 0⟩
  else if c.isDigit then some ⟨.whole, false, digit c, 0, false, 0⟩
  else none

def isMark (c : Char) : Bool := c = 'e' || c = 'E'

def push (n : Numeral) (phase : NumeralPhase) (c : Char) : Numeral :=
  { n with phase := phase, digits := 10 * n.digits + digit c }

/-- The numeral with one more character; `none` if the character does not belong to it, and an
error if it cannot end before it. -/
def extend (n : Numeral) (c : Char) : Except Fault (Option Numeral) :=
  match n.phase with
  | .sign =>
    if c = '0' then .ok (some { n with phase := .zero })
    else if c.isDigit then .ok (some (n.push .whole c))
    else .error .invalidNumber
  | .zero =>
    if c.isDigit then .error .invalidNumber
    else if c = '.' then .ok (some { n with phase := .point })
    else if isMark c then .ok (some { n with phase := .mark })
    else .ok none
  | .whole =>
    if c.isDigit then .ok (some (n.push .whole c))
    else if c = '.' then .ok (some { n with phase := .point })
    else if isMark c then .ok (some { n with phase := .mark })
    else .ok none
  | .point =>
    if c.isDigit then .ok (some { n.push .fraction c with places := 1 })
    else .error .invalidNumber
  | .fraction =>
    if c.isDigit then .ok (some { n.push .fraction c with places := n.places + 1 })
    else if isMark c then .ok (some { n with phase := .mark })
    else .ok none
  | .mark =>
    if c = '+' then .ok (some { n with phase := .powerSign })
    else if c = '-' then .ok (some { n with phase := .powerSign, negativePower := true })
    else if c.isDigit then .ok (some { n with phase := .power, power := digit c })
    else .error .invalidNumber
  | .powerSign =>
    if c.isDigit then .ok (some { n with phase := .power, power := digit c })
    else .error .invalidNumber
  | .power =>
    if c.isDigit then .ok (some { n with power := 10 * n.power + digit c })
    else .ok none

/-- The double that the numeral writes, unless it is too large. -/
def double? (n : Numeral) : Except Fault JsonNumber :=
  let power : Int := if n.negativePower then -n.power else n.power
  match Magnitude.ofDecimal? n.digits (power - n.places) with
  | some x => .ok (.double n.negative x)
  | none => .error .numberOutOfRange

/-- The number that the numeral writes.  Whole numbers from `-2 ^ 63` up to `2 ^ 64` are integers,
but minus zero, like all else, is a double. -/
def close (n : Numeral) : Except Fault JsonNumber :=
  match n.phase with
  | .zero | .whole =>
    if n.negative then
      if 0 < n.digits ∧ n.digits ≤ 0x8000000000000000 then .ok (.integer (-n.digits)) else n.double?
    else if n.digits < 0x10000000000000000 then .ok (.integer n.digits) else n.double?
  | .fraction | .power => n.double?
  | _ => .error .endOfValue

end Numeral

/-! ### Strings -/

inductive StringPhase where
  /-- Anything may follow. -/
  | plain
  /-- A backslash. -/
  | backslash
  /-- An escape of a code unit: the high surrogate before it, how many bytes are left, and the
  value so far, if all digits are hexadecimal. -/
  | unit (high : Option Nat) (left : Nat) (value : Option Nat)
  /-- A high surrogate, after which a backslash must stand. -/
  | high (high : Nat)
  /-- A high surrogate and a backslash. -/
  | highBackslash (high : Nat)
  deriving DecidableEq

/-- A string on its way: the characters so far, the last one first. -/
structure Partial where
  phase : StringPhase
  reversed : List Char
  deriving DecidableEq

namespace Partial

def start : Partial := ⟨.plain, []⟩

def text (p : Partial) : String := String.ofList p.reversed.reverse

def push (p : Partial) (c : Char) : Partial := ⟨.plain, c :: p.reversed⟩

/-- The character of an escape letter, if there is one. -/
def escaped? (c : Char) : Option Char :=
  if c = '"' ∨ c = '\\' ∨ c = '/' then some c
  else if c = 'b' then some '\x08'
  else if c = 'f' then some '\x0c'
  else if c = 'n' then some '\n'
  else if c = 'r' then some '\r'
  else if c = 't' then some '\t'
  else none

/-- The string after a code unit: a character, or half of one. -/
def pushUnit (p : Partial) (high : Option Nat) (unit : Nat) : Except Fault Partial :=
  match high with
  | none =>
    if 0xdc00 ≤ unit ∧ unit ≤ 0xdfff then .error .loneSurrogate
    else if 0xd800 ≤ unit ∧ unit ≤ 0xdbff then .ok ⟨.high unit, p.reversed⟩
    else .ok (p.push (Char.ofNat unit))
  | some h =>
    if 0xdc00 ≤ unit ∧ unit ≤ 0xdfff then
      .ok (p.push (Char.ofNat (0x10000 + (h - 0xd800) * 0x400 + (unit - 0xdc00))))
    else .error .loneSurrogate

/-- The string with one more character of text; `none` at its closing quote. -/
def extend (p : Partial) (c : Char) : Except Fault (Option Partial) :=
  match p.phase with
  | .plain =>
    if c = '"' then .ok none
    else if c = '\\' then .ok (some ⟨.backslash, p.reversed⟩)
    else if c.toNat < 0x20 then .error .controlCharacter
    else .ok (some (p.push c))
  | .backslash =>
    if c = 'u' then .ok (some ⟨.unit none 4 (some 0), p.reversed⟩)
    else match escaped? c with
      | some e => .ok (some (p.push e))
      | none => .error .invalidEscape
  | .unit high left value =>
    let value := do return 16 * (← value) + (← hexValue? c)
    if c.utf8Size < left then .ok (some ⟨.unit high (left - c.utf8Size) value, p.reversed⟩)
    else match value with
      | some unit => (p.pushUnit high unit).map some
      | none => .error .invalidEscape
  | .high h =>
    if c = '\\' then .ok (some ⟨.highBackslash h, p.reversed⟩) else .error .unpairedSurrogate
  | .highBackslash h =>
    if c = 'u' then .ok (some ⟨.unit (some h) 4 (some 0), p.reversed⟩)
    else .error .unpairedSurrogate

end Partial

/-! ### The machine -/

variable {α : Type}

/-- An open array or object, and which of its values is being read. -/
inductive Frame (α : Type) where
  /-- An array, with the elements so far, the last one first. -/
  | element (done : List α)
  /-- An object, with the members so far, the last one first, and the key of the next. -/
  | member (done : List (String × α)) (key : String)

namespace Frame

def segment : Frame α → Segment
  | element done => .index done.length
  | member _ key => .member key

end Frame

/-- What may come after a value, given where the value stands. -/
inductive After (α : Type) where
  /-- After the whole text's value. -/
  | root (value : α)
  /-- After an element, with the elements so far, the last one first. -/
  | element (done : List α)
  /-- After a member, with the members so far, the last one first. -/
  | member (done : List (String × α))

/-- What the machine is reading. -/
inductive Mode (α : Type) where
  /-- A value must start. -/
  | value
  /-- After an opening bracket. -/
  | firstElement
  /-- After a comma in an array. -/
  | nextElement (done : List α)
  /-- After an opening brace. -/
  | firstKey
  /-- After a comma in an object. -/
  | nextKey (done : List (String × α))
  /-- In a key. -/
  | key (done : List (String × α)) (text : Partial)
  /-- After a key. -/
  | colon (done : List (String × α)) (key : String)
  /-- In one of the three words, with what is left of it. -/
  | word (left : List Char) (value : α)
  /-- In a number. -/
  | numeral (n : Numeral)
  /-- In a string. -/
  | text (p : Partial)
  /-- After a value. -/
  | after (a : After α)

/-- The open containers, the innermost first, and what is being read. -/
structure State (α : Type) where
  stack : List (Frame α)
  mode : Mode α

namespace State

def start : State α := ⟨[], .value⟩

/-- The way from the root to the value being read. -/
def path (stack : List (Frame α)) : List Segment := (stack.map Frame.segment).reverse

def fail {β : Type} (stack : List (Frame α)) (fault : Fault) : Except Failure β :=
  .error ⟨path stack, fault⟩

/-- A fault where a key should stand, or between members. -/
def failAtKey {β : Type} (stack : List (Frame α)) (fault : Fault) : Except Failure β :=
  .error ⟨path stack ++ [.key], fault⟩

/-- What may follow a value that has just been read, and the containers still open. -/
def complete (value : α) : List (Frame α) → List (Frame α) × After α
  | [] => ([], .root value)
  | .element done :: stack => (stack, .element (value :: done))
  | .member done key :: stack => (stack, .member ((key, value) :: done))

/-- The state after a value. -/
def settle (value : α) (stack : List (Frame α)) : State α :=
  let (stack, after) := complete value stack
  ⟨stack, .after after⟩

def closeObject (asm : Assembly α) (stack : List (Frame α)) (done : List (String × α)) :
    Except Failure (State α) :=
  match asm.object done.reverse with
  | some value => .ok (settle value stack)
  | none => fail stack .invalidExtended

def isSpace (c : Char) : Bool := c = ' ' || c = '\n' || c = '\t' || c = '\r'

def stepValue (asm : Assembly α) (stack : List (Frame α)) (c : Char) :
    Except Failure (State α) :=
  if c = '"' then .ok ⟨stack, .text .start⟩
  else if c = '[' then
    if 127 ≤ stack.length then fail stack .tooDeep else .ok ⟨stack, .firstElement⟩
  else if c = '\x7b' then
    if 127 ≤ stack.length then fail stack .tooDeep else .ok ⟨stack, .firstKey⟩
  else if c = 't' then .ok ⟨stack, .word "rue".toList (asm.bool true)⟩
  else if c = 'f' then .ok ⟨stack, .word "alse".toList (asm.bool false)⟩
  else if c = 'n' then .ok ⟨stack, .word "ull".toList asm.null⟩
  else match Numeral.start? c with
    | some n => .ok ⟨stack, .numeral n⟩
    | none => fail stack .expectedValue

def stepAfter (asm : Assembly α) (stack : List (Frame α)) (after : After α) (c : Char) :
    Except Failure (State α) :=
  if isSpace c then .ok ⟨stack, .after after⟩
  else match after with
    | .root _ => .error ⟨[], .trailingCharacters⟩
    | .element done =>
      if c = ',' then .ok ⟨stack, .nextElement done⟩
      else if c = ']' then .ok (settle (asm.array done.reverse) stack)
      else fail stack .expectedCommaOrBracket
    | .member done =>
      if c = ',' then .ok ⟨stack, .nextKey done⟩
      else if c = '\x7d' then closeObject asm stack done
      else failAtKey stack .expectedCommaOrBrace

def step (asm : Assembly α) (s : State α) (c : Char) : Except Failure (State α) :=
  match s.mode with
  | .value => if isSpace c then .ok s else stepValue asm s.stack c
  | .firstElement =>
    if isSpace c then .ok s
    else if c = ']' then .ok (settle (asm.array []) s.stack)
    else stepValue asm (.element [] :: s.stack) c
  | .nextElement done =>
    if isSpace c then .ok s
    else if c = ']' then fail s.stack .trailingComma
    else stepValue asm (.element done :: s.stack) c
  | .firstKey =>
    if isSpace c then .ok s
    else if c = '"' then .ok ⟨s.stack, .key [] .start⟩
    else if c = '\x7d' then closeObject asm s.stack []
    else failAtKey s.stack .keyNotString
  | .nextKey done =>
    if isSpace c then .ok s
    else if c = '"' then .ok ⟨s.stack, .key done .start⟩
    else if c = '\x7d' then failAtKey s.stack .trailingComma
    else failAtKey s.stack .keyNotString
  | .key done p =>
    match p.extend c with
    | .ok (some p) => .ok ⟨s.stack, .key done p⟩
    | .ok none => .ok ⟨s.stack, .colon done p.text⟩
    | .error fault => failAtKey s.stack fault
  | .colon done key =>
    if isSpace c then .ok s
    else if c = ':' then .ok ⟨.member done key :: s.stack, .value⟩
    else fail s.stack .expectedColon
  | .word left value =>
    match left with
    | [] => stepAfter asm (complete value s.stack).1 (complete value s.stack).2 c
    | d :: r =>
      if c = d then
        if r.isEmpty then .ok (settle value s.stack) else .ok ⟨s.stack, .word r value⟩
      else fail s.stack .expectedIdentifier
  | .numeral n =>
    match n.extend c with
    | .ok (some n) => .ok ⟨s.stack, .numeral n⟩
    | .ok none =>
      match n.close with
      | .ok m =>
        let (stack, after) := complete (asm.number m) s.stack
        stepAfter asm stack after c
      | .error fault => fail s.stack fault
    | .error fault => fail s.stack fault
  | .text p =>
    match p.extend c with
    | .ok (some p) => .ok ⟨s.stack, .text p⟩
    | .ok none => .ok (settle (asm.string p.text) s.stack)
    | .error fault => fail s.stack fault
  | .after after => stepAfter asm s.stack after c

def finishAfter (stack : List (Frame α)) : After α → Except Failure α
  | .root value => .ok value
  | .element _ => fail stack .endOfList
  | .member _ => failAtKey stack .endOfObject

def finish (asm : Assembly α) (s : State α) : Except Failure α :=
  match s.mode with
  | .value => fail s.stack .endOfValue
  | .firstElement => fail s.stack .endOfList
  | .nextElement _ => fail s.stack .endOfValue
  | .firstKey => failAtKey s.stack .endOfObject
  | .nextKey _ => failAtKey s.stack .endOfValue
  | .key _ _ => failAtKey s.stack .endOfString
  | .colon _ _ => fail s.stack .endOfObject
  | .word _ _ => fail s.stack .endOfValue
  | .numeral n =>
    match n.close with
    | .ok m =>
      let (stack, after) := complete (asm.number m) s.stack
      finishAfter stack after
    | .error fault => fail s.stack fault
  | .text _ => fail s.stack .endOfString
  | .after after => finishAfter s.stack after

end State

def readWith (asm : Assembly α) (text : List Char) : Except Failure α :=
  (text.foldlM (State.step asm) State.start).bind (State.finish asm)

def read (text : List Char) : Except Failure Json := readWith .tree text

end QueryScribe.Json
