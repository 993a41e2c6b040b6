import QueryScribe.Query

/-!
# Queries that may be escaped

Text that went through a shell has a backslash before each quote and each
backslash.  `unescape` takes these backslashes away and leaves every other one
alone, so it gives back every text that `escape` has escaped.

Text that was escaped for a shell is no JSON.  So where an attempt on a text has
failed and the text holds an escaped quote, the attempt is made once more on the
text without the escapes.  If both fail, the first error is the one that counts.
-/

namespace QueryScribe.Shell

/-- One character, with a backslash before it if it is a quote or a backslash. -/
def escapeChar (c : Char) : List Char := if c = '"' ∨ c = '\\' then ['\\', c] else [c]

def escape (text : List Char) : List Char := text.flatMap escapeChar

/-- The text without the backslashes before quotes and backslashes. -/
def unescape : List Char → List Char
  | [] => []
  | [c] => [c]
  | c :: d :: r =>
    if c = '\\' ∧ (d = '"' ∨ d = '\\') then d :: unescape r else c :: unescape (d :: r)

def hasEscapedQuote : List Char → Bool
  | c :: d :: r => (c = '\\' && d = '"') || hasEscapedQuote (d :: r)
  | _ => false

theorem unescape_cons {c : Char} (text : List Char) (h : c ≠ '\\') :
    unescape (c :: text) = c :: unescape text := by
  cases text with
  | nil => rfl
  | cons d r => simp [unescape, h]

theorem unescape_escapeChar_append (c : Char) (text : List Char) :
    unescape (escapeChar c ++ text) = c :: unescape text := by
  by_cases h : c = '"' ∨ c = '\\'
  · simp [escapeChar, unescape, h]
  · rw [escapeChar, if_neg h]
    exact unescape_cons text fun e => h (.inr e)

theorem unescape_escape (text : List Char) : unescape (escape text) = text := by
  induction text with
  | nil => rfl
  | cons c r ih =>
    rw [escape, List.flatMap_cons, unescape_escapeChar_append]
    exact congrArg (c :: ·) ih

end QueryScribe.Shell

namespace QueryScribe

inductive QueryMode where
  /-- By its first character. -/
  | auto
  /-- As a filter, whatever it begins with. -/
  | filter
  /-- As a pipeline, whatever it begins with. -/
  | pipeline
  deriving DecidableEq, Repr

namespace Query

/-- An attempt on a text, and one more on the text without shell escapes if that may help. -/
def retrying {α : Type} (enabled : Bool) (attempt : String → Except QueryError α) (text : String) :
    Except QueryError α :=
  match attempt text with
  | .ok a => .ok a
  | .error e =>
    if enabled && Shell.hasEscapedQuote text.toList then
      match attempt (String.ofList (Shell.unescape text.toList)) with
      | .ok a => .ok a
      | .error _ => .error e
    else .error e

/-- The code of a text read in a mode, in one attempt. -/
def codeOnce (o : Options) (mode : QueryMode) (text : String) : Except QueryError String :=
  match mode with
  | .auto => ofText o text
  | .filter => ofFilterText o (trimmed text)
  | .pipeline => ofPipelineText o (trimmed text)

/-- The code of a text read in a mode, which may be escaped for a shell if the options say so. -/
def code (o : Options) (mode : QueryMode) (text : String) : Except QueryError String :=
  retrying o.unescapeFallback (codeOnce o mode) text

def valueOnce (text : String) : Except QueryError Value := readValue (trimmed text)

def value (unescape : Bool) (text : String) : Except QueryError Value :=
  retrying unescape valueOnce text

/-- The extended JSON of a text's value, on one line or over several. -/
def canonical (compact unescape : Bool) (text : String) : Except QueryError String :=
  (value unescape text).map fun v => if compact then v.toText else v.toPrettyText

theorem retrying_of_ok {α : Type} {attempt : String → Except QueryError α} {text : String} {a : α}
    (enabled : Bool) (h : attempt text = .ok a) : retrying enabled attempt text = .ok a := by
  simp [retrying, h]

end Query

end QueryScribe
