import QueryScribe.Code.StringLiteral

/-!
# Generated code

Generated code is a tree before it is text.  Its leaves are plain words, string
literals and names from one of two packages; its branches put brackets around
arguments, which stand side by side or on lines of their own.  Nothing in the tree
depends on how the packages are called: `Code.render` fills their names in.
-/

namespace QueryScribe

/-- The names of the packages that generated code refers to. -/
structure Packages where
  builder : String
  bson : String
  deriving DecidableEq, Repr

inductive Package where
  /-- The query builder. -/
  | builder
  /-- The database's value types. -/
  | bson
  deriving DecidableEq, Repr

inductive Bracket where
  | round
  | square
  | curly
  deriving DecidableEq, Repr

namespace Bracket

def opener : Bracket → Char
  | round => '('
  | square => '['
  | curly => '\x7b'

def closer : Bracket → Char
  | round => ')'
  | square => ']'
  | curly => '\x7d'

end Bracket

/-- A piece of generated code. -/
inductive Code where
  /-- A word or a mark, with no bracket and no quote in it. -/
  | word (text : String)
  /-- A string literal. -/
  | quoted (s : String)
  /-- A name from a package. -/
  | name (package : Package) (name : String)
  /-- Arguments in brackets: first those side by side, then those on lines of their own. -/
  | group (bracket : Bracket) (items : List Code) (lines : List Code)
  /-- Pieces one after another. -/
  | seq (parts : List Code)

namespace Code

def packageName (p : Packages) : Package → String
  | .builder => p.builder
  | .bson => p.bson

/-- A name with its package in front, unless the package has no name. -/
def qualified (p : Packages) (package : Package) (name : String) : List Char :=
  let q := (packageName p package).toList
  if q.isEmpty then name.toList else q ++ '.' :: name.toList

/-- What stands between brackets, from the texts of the arguments. -/
def arguments (items lines : List (List Char)) : List Char :=
  [',', ' '].intercalate items
    ++ match lines with
      | [] => []
      | _ => (if items.isEmpty then ['\n'] else [',', '\n']) ++ lines.flatMap (· ++ [',', '\n'])

mutual
def render (p : Packages) : Code → List Char
  | .word text => text.toList
  | .quoted s => StringLiteral.write s
  | .name package ident => qualified p package ident
  | .group bracket items lines =>
    bracket.opener :: arguments (renderAll p items) (renderAll p lines) ++ [bracket.closer]
  | .seq parts => (renderAll p parts).flatten
def renderAll (p : Packages) : List Code → List (List Char)
  | [] => []
  | c :: r => render p c :: renderAll p r
end

def call (function : String) (args : List Code) : Code :=
  .seq [.name .builder function, .group .round args []]

/-- A call of a builder function with each argument on a line of its own. -/
def callLines (function : String) (args : List Code) : Code :=
  .seq [.name .builder function, .group .round [] args]

def composite (type : String) (items : List Code) : Code :=
  .seq [.name .bson type, .group .curly items []]

def convert (type : String) (arg : Code) : Code :=
  .seq [.name .bson type, .group .round [arg] []]

def method (name : String) (args : List Code) : Code := .seq [.word name, .group .round args []]

theorem renderAll_eq_map (p : Packages) (cs : List Code) : renderAll p cs = cs.map (render p) := by
  induction cs with
  | nil => simp [renderAll]
  | cons c r ih => simp [renderAll, ih]

/-- Arguments side by side have a comma and a space between them. -/
theorem render_sideBySide (p : Packages) (function : String) (args : List Code) :
    render p (call function args)
      = qualified p .builder function
        ++ '(' :: [',', ' '].intercalate (args.map (render p)) ++ [')'] := by
  simp [call, render, renderAll, renderAll_eq_map, arguments, Bracket.opener, Bracket.closer]

/-- Arguments on lines of their own have a comma behind them, the last one as well. -/
theorem render_onLines (p : Packages) (function : String) (first : Code) (rest : List Code) :
    render p (callLines function (first :: rest))
      = qualified p .builder function
        ++ '(' :: '\n' :: (first :: rest).flatMap (fun c => render p c ++ [',', '\n']) ++ [')'] := by
  simp [callLines, render, renderAll, renderAll_eq_map, arguments, Bracket.opener, Bracket.closer,
    List.flatMap_map]

end Code

end QueryScribe
