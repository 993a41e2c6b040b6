/-!
# Paths

A path is a text whose components stand between slashes.  Empty components and
components that are a single dot lead nowhere, and two dots lead up.  A path is
shown as it was written, so these functions work on the text.
-/

namespace QueryScribe.Path

/-- The components of a path, empty ones included.  A path that starts at the root has an empty
first component. -/
def components (path : String) : List (List Char) := go path.toList
where
  go : List Char → List (List Char)
    | [] => [[]]
    | c :: r =>
      if c = '/' then [] :: go r
      else match go r with
        | [] => [[c]]
        | first :: rest => (c :: first) :: rest

def ofComponents (cs : List (List Char)) : String := String.ofList (['/'].intercalate cs)

/-- A component that leads nowhere. -/
def isIdle (c : List Char) : Bool := c = [] || c = ['.']

/-- Whether a path is the current folder, written with dots. -/
def isCurrent (path : String) : Bool :=
  match components path with
  | ['.'] :: rest => rest.all isIdle
  | _ => false

def join (path name : String) : String :=
  if path = "" ∨ path.toList.getLast? = some '/' then path ++ name else path ++ "/" ++ name

/-- The path of an entry of a folder; the current folder is left out. -/
def child (folder name : String) : String := if isCurrent folder then name else join folder name

/-- Components, the last one first, from the first on that leads somewhere.  A dot at the very start
of a path counts. -/
def dropIdle : List (List Char) → List (List Char)
  | [] => []
  | [c] => if c = [] then [] else [c]
  | c :: r => if isIdle c then dropIdle r else c :: r

/-- The path of the folder that holds what a path leads to; it is empty for the current folder, and
the root has none. -/
def parent? (path : String) : Option String :=
  match dropIdle (components path).reverse with
  | [] => none
  | _ :: above =>
    match dropIdle above with
    | [] => if path.toList.head? = some '/' then some "/" else some ""
    | cs => some (ofComponents cs.reverse)

end QueryScribe.Path
