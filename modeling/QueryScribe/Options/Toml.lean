import QueryScribe.Text.Digits

/-!
# Settings in TOML

The part of TOML that settings need: blank lines, comments, and lines that give a
key a string or a Boolean.  Keys and strings may be quoted in each of the ways that
fit on one line.  A line of any other kind is no setting and makes the whole text
unreadable.
-/

namespace QueryScribe.Toml

open QueryScribe.Text

inductive Scalar where
  | string (s : String)
  | bool (b : Bool)
  deriving DecidableEq, Repr

abbrev Setting := String × Scalar

/-! ### Lines -/

/-- The lines of a text; a carriage return belongs to the line break after it. -/
def lines : List Char → List (List Char)
  | [] => [[]]
  | '\r' :: '\n' :: r => [] :: lines r
  | '\n' :: r => [] :: lines r
  | c :: r =>
    match lines r with
    | [] => [[c]]
    | l :: ls => (c :: l) :: ls

/-- A control character that may not stand in a line; a tab may. -/
def isForbidden (c : Char) : Bool := (c.toNat < 0x20 && c ≠ '\t') || c.toNat = 0x7f

def skip (s : List Char) : List Char := s.dropWhile fun c => c = ' ' || c = '\t'

/-- Nothing but a comment. -/
def isDone (s : List Char) : Bool :=
  match skip s with
  | [] => true
  | c :: r => c = '#' && r.all (!isForbidden ·)

/-! ### Strings -/

def hexNumber? (count : Nat) (s : List Char) : Option (Nat × List Char) := do
  if s.length < count then none
  let digits ← (s.take count).mapM hexValue?
  return (digits.foldl (16 * · + ·) 0, s.drop count)

/-- The character of a code point, which must not be a surrogate. -/
def scalarValue? (n : Nat) : Option Char :=
  if n.isValidChar then some (Char.ofNat n) else none

/-- The character that an escape stands for, given what follows its backslash, and the rest. -/
def escape? : List Char → Option (Char × List Char)
  | [] => none
  | c :: r =>
    if c = '"' then some ('"', r)
    else if c = '\\' then some ('\\', r)
    else if c = 'b' then some ('\x08', r)
    else if c = 't' then some ('\t', r)
    else if c = 'n' then some ('\n', r)
    else if c = 'f' then some ('\x0c', r)
    else if c = 'r' then some ('\r', r)
    else if c = 'u' then do
      let (n, r) ← hexNumber? 4 r
      return (← scalarValue? n, r)
    else if c = 'U' then do
      let (n, r) ← hexNumber? 8 r
      return (← scalarValue? n, r)
    else none

structure Quoting where
  quote : Char
  /-- Whether a backslash begins an escape. -/
  escapes : Bool
  /-- Whether the quote stands three times at each end. -/
  triple : Bool

/-- The rest after the quote that ends a string, and the quotes before it that belong to the
string. -/
def Quoting.close? (q : Quoting) (s : List Char) : Option (List Char × List Char) :=
  if q.triple then
    match s with
    | a :: b :: c :: r =>
      if a = q.quote ∧ b = q.quote ∧ c = q.quote then
        let inner := (r.take 2).takeWhile (· = q.quote)
        some (inner, r.drop inner.length)
      else none
    | _ => none
  else
    match s with
    | c :: r => if c = q.quote then some ([], r) else none
    | [] => none

/-- The characters of a string up to its end, and the rest.  Each character read takes one from the
measure, which the length of the text bounds. -/
def Quoting.read? (q : Quoting) : Nat → List Char → Option (List Char × List Char)
  | 0, _ => none
  | fuel + 1, s =>
    match q.close? s with
    | some found => some found
    | none =>
      match s with
      | [] => none
      | c :: r =>
        if q.escapes ∧ c = '\\' then do
          let (e, r) ← escape? r
          let (cs, r) ← q.read? fuel r
          return (e :: cs, r)
        else if isForbidden c then none
        else do
          let (cs, r) ← q.read? fuel r
          return (c :: cs, r)

def string? (allowTriple : Bool) (s : List Char) : Option (List Char × List Char) := do
  let quote ← s.head?
  if quote ≠ '"' ∧ quote ≠ '\'' then none
  let triple := allowTriple && s.take 3 = [quote, quote, quote]
  Quoting.read? ⟨quote, quote = '"', triple⟩ (s.length + 1) (s.drop (if triple then 3 else 1))

/-! ### Settings -/

def isBare (c : Char) : Bool := c.isAlphanum || c = '_' || c = '-'

def key? (s : List Char) : Option (List Char × List Char) :=
  match s.takeWhile isBare with
  | [] => string? false s
  | key => some (key, s.dropWhile isBare)

def scalar? (s : List Char) : Option (Scalar × List Char) :=
  if s.take 4 = "true".toList then some (.bool true, s.drop 4)
  else if s.take 5 = "false".toList then some (.bool false, s.drop 5)
  else (string? true s).map fun (cs, r) => (.string (String.ofList cs), r)

/-- The setting on a line, if the line has one; nothing if the line cannot be read. -/
def line? (s : List Char) : Option (Option Setting) :=
  if isDone s then some none
  else do
    let (key, r) ← key? (skip s)
    match skip r with
    | '=' :: r =>
      let (value, r) ← scalar? (skip r)
      if isDone r then some (some (String.ofList key, value)) else none
    | _ => none

/-- The settings of a text in order, no key twice. -/
def read? (text : List Char) : Option (List Setting) := do
  let settings ← (lines text).mapM line?
  let settings := settings.filterMap id
  if (settings.map (·.1)).Nodup then some settings else none

end QueryScribe.Toml
