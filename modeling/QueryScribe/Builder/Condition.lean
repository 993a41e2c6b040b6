import QueryScribe.Builder.Literal
import QueryScribe.Code.Basic

/-!
# Conditions

A predicate becomes a term of builder calls.  `Condition` is that term: tests at the
leaves, conditions on the elements of an array, and the three connectives.  The
term is what a predicate means, and `Condition.code` is the code that it is written as.  Its text
is the name of a builder and, in round brackets, the arguments with a comma and a space between
them; the parts of a junction have a line of their own each, and a comma behind each of them.
-/

namespace QueryScribe

inductive Connective where
  | and
  | or
  | nor
  deriving DecidableEq, Repr

namespace Connective

def ofKey? (key : String) : Option Connective :=
  if key = "$and" then some and
  else if key = "$or" then some or
  else if key = "$nor" then some nor
  else none

def builder : Connective → String
  | and => "And"
  | or => "Or"
  | nor => "Nor"

end Connective

/-- A term of builder calls. -/
inductive Condition where
  /-- A builder with its arguments. -/
  | test (builder : String) (args : List Code)
  /-- A condition on some element of an array. -/
  | element (field : String) (body : Condition)
  /-- Conditions that are joined. -/
  | junction (connective : Connective) (parts : List Condition)
  /-- The condition that always holds. -/
  | anything

namespace Condition

mutual
def code : Condition → Code
  | test builder args => .call builder args
  | element field body => .call "ElemMatch" [.quoted field, code body]
  | junction connective parts => .callLines connective.builder (codes parts)
  | anything => .call "NewFilter" []
def codes : List Condition → List Code
  | [] => []
  | c :: r => code c :: codes r
end

/-- The condition that some conditions make together where one is needed: one stands for itself,
and none holds always. -/
def together : List Condition → Condition
  | [] => anything
  | [c] => c
  | cs => junction .and cs

def links : List Condition → List Code
  | [] => []
  | cs => [(together cs).code]

theorem codes_eq_map (cs : List Condition) : codes cs = cs.map code := by
  induction cs with
  | nil => simp [codes]
  | cons c r ih => simp [codes, ih]

/-! ### Texts of conditions -/

section

variable (p : Packages)

theorem render_test (builder : String) (args : List Code) :
    (test builder args).code.render p
      = Code.qualified p .builder builder
        ++ '(' :: [',', ' '].intercalate (args.map (Code.render p)) ++ [')'] := by
  rw [code, Code.render_sideBySide]

theorem render_element (field : String) (body : Condition) :
    (element field body).code.render p
      = Code.qualified p .builder "ElemMatch"
        ++ '(' :: (StringLiteral.write field ++ ',' :: ' ' :: body.code.render p) ++ [')'] := by
  rw [code, Code.render_sideBySide]
  simp [Code.render, List.intercalate]

theorem render_junction (connective : Connective) (first : Condition) (rest : List Condition) :
    (junction connective (first :: rest)).code.render p
      = Code.qualified p .builder connective.builder
        ++ '(' :: '\n' :: (first :: rest).flatMap (fun part => part.code.render p ++ [',', '\n'])
        ++ [')'] := by
  rw [code, codes_eq_map, List.map_cons, Code.render_onLines, ← List.map_cons, List.flatMap_map]

theorem render_junction_nil (connective : Connective) :
    (junction connective []).code.render p
      = Code.qualified p .builder connective.builder ++ ['(', ')'] := by
  rw [code, codes]
  exact (Code.render_sideBySide p connective.builder []).trans (by simp)

theorem render_anything :
    anything.code.render p = Code.qualified p .builder "NewFilter" ++ ['(', ')'] := by
  rw [code, Code.render_sideBySide, List.map_nil, List.intercalate_nil, List.append_assoc]
  rfl

end

end Condition

end QueryScribe
