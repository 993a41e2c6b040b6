import QueryScribe.Command.Host
import QueryScribe.Text.Digits

/-!
# Patterns of paths

A pattern is a path in whose components `*` stands for any text, `?` for any
character and brackets for a choice of characters; the component `**` stands for
folders at any depth.  `Pattern.ofText` reads a pattern, and `Pattern.paths` gives the
paths of a host that it stands for, in alphabetical order and each folder before
what is in it.
-/

namespace QueryScribe.Glob

open QueryScribe.Text

inductive Fault where
  /-- Three stars in a row. -/
  | wildcards
  /-- Two stars with something else in their component. -/
  | recursive
  /-- A bracket that is not closed. -/
  | range
  deriving DecidableEq, Repr

structure SyntaxError where
  position : Nat
  fault : Fault
  deriving DecidableEq, Repr

namespace SyntaxError

def message (e : SyntaxError) : String :=
  "Pattern syntax error near position " ++ String.ofList (decimal e.position) ++ ": " ++
    match e.fault with
    | .wildcards => "wildcards are either regular \x60*\x60 or recursive \x60**\x60"
    | .recursive => "recursive wildcards must form a single path component"
    | .range => "invalid range pattern"

end SyntaxError

inductive Token where
  | char (c : Char)
  | any
  /-- One of the characters in ranges, or none of them. -/
  | range (negated : Bool) (ranges : List (Char × Char))
  /-- A single star. -/
  | star
  /-- Two stars. -/
  | deep
  deriving DecidableEq, Repr

/-! ### Reading -/

def ranges : List Char → List (Char × Char)
  | a :: '-' :: b :: r => (a, b) :: ranges r
  | a :: r => (a, a) :: ranges r
  | [] => []

/-- The token of brackets, given what follows the opening one, and how many characters it takes.
The first character between brackets may itself be a closing bracket. -/
def bracket? (s : List Char) : Option (Token × Nat) :=
  let (negated, body) := match s with
    | '!' :: r => (true, r)
    | r => (false, r)
  match body with
  | [] => none
  | first :: r =>
    let more := r.takeWhile (· ≠ ']')
    if more.length < r.length then
      some (.range negated (ranges (first :: more)), more.length + if negated then 3 else 2)
    else none

/-- What two stars must have on both sides: a slash or an end of the pattern. -/
def isEdge (c : Option Char) : Bool := c = none || c = some '/'

/-- The tokens of a pattern from a position on, after a character if there is one.  Slashes are
characters like any other. -/
def tokens (position : Nat) (before : Option Char) (s : List Char) :
    Except SyntaxError (List Token) :=
  match s with
  | [] => .ok []
  | '?' :: r => (tokens (position + 1) (some '?') r).map (.any :: ·)
  | '*' :: r =>
    let more := r.takeWhile (· = '*')
    match more.length with
    | 0 => (tokens (position + 1) (some '*') r).map (.star :: ·)
    | 1 =>
      if isEdge before then
        if isEdge (r.drop 1).head? then
          (tokens (position + 2) (some '*') (r.drop 1)).map (.deep :: ·)
        else .error ⟨position + 2, .recursive⟩
      else .error ⟨position - 1, .recursive⟩
    | _ => .error ⟨position + 2, .wildcards⟩
  | '[' :: r =>
    match bracket? r with
    | none => .error ⟨position, .range⟩
    | some (token, count) =>
      (tokens (position + 1 + count) (some ']') (r.drop count)).map (token :: ·)
  | c :: r => (tokens (position + 1) (some c) r).map (.char c :: ·)
termination_by s.length
decreasing_by all_goals simp only [List.length_drop, List.length_cons]; omega

inductive Component where
  /-- A name without wildcards. -/
  | name (text : String)
  | wild (tokens : List Token)
  /-- Folders at any depth. -/
  | deep
  deriving DecidableEq, Repr

def plain? (ts : List Token) : Option (List Char) :=
  ts.mapM fun
    | .char c => some c
    | _ => none

def Component.ofTokens (ts : List Token) : Component :=
  if ts = [.deep] then .deep
  else match plain? ts with
    | some cs => .name (String.ofList cs)
    | none => .wild ts

structure Pattern where
  /-- Whether the pattern starts at the root. -/
  fromRoot : Bool
  components : List Component
  /-- Whether the pattern ends with a slash, and so stands for folders only. -/
  foldersOnly : Bool
  deriving DecidableEq, Repr

/-- Components without a repetition of what stands for any depth. -/
def Component.collapse : List Component → List Component
  | .deep :: .deep :: r => collapse (.deep :: r)
  | c :: r => c :: collapse r
  | [] => []

def isPattern (text : String) : Bool := text.toList.any fun c => c = '*' || c = '?' || c = '['

/-- The pattern of a text.  The text must be right as a whole, and then each component on its
own. -/
def Pattern.ofText (text : String) : Except SyntaxError Pattern := do
  let _ ← tokens 0 none text.toList
  let foldersOnly := text.toList.getLast? = some '/'
  let fromRoot := text.toList.head? = some '/'
  let parts := Path.components text
  let parts := if foldersOnly then parts.dropLast else parts
  let parts := if fromRoot then parts.tail else parts
  let components ← parts.mapM fun part => (tokens 0 none part).map Component.ofTokens
  return ⟨fromRoot, Component.collapse components, foldersOnly⟩

/-! ### Matching names -/

def Token.admits (c : Char) : Token → Bool
  | .char d => c = d
  | .any => true
  | .range negated ranges => negated != ranges.any fun (a, b) => a ≤ c && c ≤ b
  | .star | .deep => false

/-- Whether some end of a text has a property. -/
def anyEnd (p : List Char → Bool) : List Char → Bool
  | [] => p []
  | c :: r => p (c :: r) || anyEnd p r

def isMatch : List Token → List Char → Bool
  | [], s => s.isEmpty
  | .star :: ts, s => anyEnd (isMatch ts) s
  | t :: ts, s =>
    match s with
    | [] => false
    | c :: r => t.admits c && isMatch ts r

def Component.admits (name : String) : Component → Bool
  | .name text => name = text
  | .wild ts => isMatch ts name.toList
  | .deep => false

/-! ### Paths -/

variable {m : Type → Type} [Monad m]

def forEach {α β : Type} (items : List α) (f : α → m (List β)) : m (List β) :=
  List.flatten <$> items.mapM f

def sortedNames (host : Host m) (folder : String) : m (List String) :=
  (·.mergeSort (· ≤ ·)) <$> host.names folder

/-- The results for each entry below a folder, those for a folder before those for its entries.
The depth is bounded. -/
def walk {α : Type} (host : Host m) (visit : String → String → m (List α)) :
    Nat → String → m (List α)
  | 0, _ => return []
  | depth + 1, folder => do
    forEach (← sortedNames host folder) fun name => do
      let path := Path.child folder name
      let own ← visit name path
      if ← host.isFolder path then return own ++ (← walk host visit depth path)
      else return own

/-- A bound on the depth of folders, which no path reaches. -/
def depthLimit : Nat := 4096

/-- The two names by which each folder holds itself and the one above. -/
def dots : List String := ["..", "."]

/-- The names of a folder that a component with wildcards may stand for besides its entries. -/
def hiddenNames (ts : List Token) : List String :=
  if ts.head? = some (.char '.') then dots.filter fun d => isMatch ts d.toList else []

def expand (host : Host m) (foldersOnly : Bool) : List Component → String → m (List String)
  | [], path => do
    if foldersOnly && !(← host.isFolder path) then return [] else return [path]
  | .name text :: r, path => do
    let next := Path.child path text
    let found ← if text ∈ dots then host.isFolder path else host.isThere next
    if found then expand host foldersOnly r next else return []
  | .wild ts :: r, path => do
    if ← host.isFolder path then
      let hidden ← forEach (hiddenNames ts) fun name =>
        expand host foldersOnly r (Path.join path name)
      let names := (← sortedNames host path).filter fun name => isMatch ts name.toList
      let shown ← forEach names fun name => expand host foldersOnly r (Path.child path name)
      return hidden ++ shown
    else return []
  | [.deep], path => do
    if ← host.isFolder path then
      walk host (fun _ p => do if ← host.isFolder p then return [p] else return []) depthLimit path
    else return []
  | .deep :: c :: r, path => do
    if ← host.isFolder path then
      walk host (fun name p => if c.admits name then expand host foldersOnly r p else return [])
        depthLimit path
    else return []

def Pattern.paths (host : Host m) (p : Pattern) : m (List String) :=
  expand host p.foldersOnly p.components (if p.fromRoot then "/" else ".")

end QueryScribe.Glob
