import QueryScribe.Json.Basic

/-!
# Selectors

A selector picks parts out of a JSON tree.  It has any number of results, in
order, and each of them is a tree or a fault: `follow` walks down a tree by
keys, and `results` gives the results of a selector.  A fault is a result like any
other until it reaches a place that needs a tree.
-/

namespace QueryScribe

/-- What a step takes of a tree. -/
inductive Choice where
  /-- The value of a key. -/
  | name (key : String)
  /-- The element at an index, which counts from the end when it is negative. -/
  | index (i : Int)
  /-- Each element, or the value of each key. -/
  | every
  deriving DecidableEq, Repr

/-- A step down a tree, which may have several choices. -/
structure Step where
  choices : List Choice
  /-- Whether a choice that the tree does not have counts as no result, and not as a fault. -/
  optional : Bool
  deriving DecidableEq, Repr

inductive Selector where
  /-- The tree itself. -/
  | here
  /-- No result. -/
  | nothing
  /-- How long the tree is. -/
  | length
  | constant (tree : Json)
  /-- The array of all results. -/
  | collect (body : Selector)
  /-- An object for each choice of a result for each of its keys. -/
  | record (entries : List (String × Selector))
  /-- The parts that steps lead to. -/
  | path (base : Selector) (steps : List Step)
  /-- The results without the faults. -/
  | attempt (body : Selector)
  /-- The second selector's results on each result of the first. -/
  | pipe (first second : Selector)
  /-- The first selector's results, then those of the second. -/
  | both (first second : Selector)

namespace Selector

inductive Fault where
  /-- The text is not a selector. -/
  | unreadable
  /-- A tree of this kind does not have such parts. -/
  | access
  /-- A tree of this kind has no length. -/
  | length
  deriving DecidableEq, Repr

end Selector

/-- The parts of a tree that a choice takes.  A key or an index that is not there has the value
null. -/
def Choice.parts : Choice → Json → Except Selector.Fault (List Json)
  | .name key, .object members => .ok [(Json.member? key members).getD .null]
  | .index i, .array items =>
    let place : Int := if i < 0 then i + items.length else i
    .ok [if place < 0 then .null else items[place.toNat]?.getD .null]
  | .every, .array items => .ok items
  | .every, .object members => .ok (members.map (·.2))
  | _, _ => .error .access

namespace Selector

abbrev Outcome (α : Type) := Except Fault α

/-- How long a tree is: its elements, members or characters, or its distance from zero. -/
def lengthOf : Json → Outcome Json
  | .null => .ok (.number (.integer 0))
  | .bool _ => .error .length
  | .number (.integer i) => .ok (.number (.integer i.natAbs))
  | .number (.double _ x) => .ok (.number (.double false x))
  | .string s => .ok (.number (.integer s.length))
  | .array items => .ok (.number (.integer items.length))
  | .object members => .ok (.number (.integer members.length))

/-- All ways to choose once in each step; the first step's choice varies slowest. -/
def ways : List Step → List (List (Choice × Bool))
  | [] => [[]]
  | s :: r => s.choices.flatMap fun c => (ways r).map ((c, s.optional) :: ·)

def follow : List (Choice × Bool) → Json → List (Outcome Json)
  | [], tree => [.ok tree]
  | (c, optional) :: r, tree =>
    match c.parts tree with
    | .ok parts => parts.flatMap (follow r)
    | .error e => if optional then [] else [.error e]

/-- Goes on with a tree; a fault stays what it is. -/
def andThen {α β : Type} (f : α → List (Outcome β)) : Outcome α → List (Outcome β)
  | .ok a => f a
  | .error e => [.error e]

/-- All the trees, unless one is a fault. -/
def gather (results : List (Outcome Json)) : Outcome (List Json) := results.mapM id

mutual
def results : Selector → Json → List (Outcome Json)
  | .here, tree => [.ok tree]
  | .nothing, _ => []
  | .length, tree => [lengthOf tree]
  | .constant c, _ => [.ok c]
  | .collect body, tree => [(gather (results body tree)).map .array]
  | .record entries, tree => (records entries tree).map (·.map fun m => .object (Json.distinct m))
  | .path base steps, tree =>
    (ways steps).flatMap fun way => (results base tree).flatMap (andThen (follow way))
  | .attempt body, tree => (results body tree).filter fun r => r.toOption.isSome
  | .pipe first second, tree => (results first tree).flatMap (andThen (results second))
  | .both first second, tree => results first tree ++ results second tree
/-- The members of each object that entries make; the first entry's value varies slowest. -/
def records : List (String × Selector) → Json → List (Outcome (List (String × Json)))
  | [], _ => [.ok []]
  | (key, value) :: r, tree =>
    (results value tree).flatMap (andThen fun j =>
      (records r tree).map (·.map ((key, j) :: ·)))
end

/-- The trees that a selector picks, if none of its results is a fault. -/
def select (s : Selector) (tree : Json) : Outcome (List Json) := gather (s.results tree)

end Selector

end QueryScribe
