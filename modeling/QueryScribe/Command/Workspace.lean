import QueryScribe.Command.Host

/-!
# A workspace

A workspace is a file system held in memory: files by their place, the folders, the
folder that paths start from, what is left of the input and what has been printed.
`Workspace.host` runs commands on it.  Paths are followed one component at a time, and
what is gone through must be a folder.
-/

namespace QueryScribe

/-- Where a file or folder is, as the names on the way from the root. -/
abbrev Place := List String

/-- A file system in memory, with the input and the output of a command. -/
structure Workspace where
  files : List (Place × String)
  /-- The folders besides the root. -/
  folders : List Place
  /-- The folder that paths start from. -/
  current : Place
  input : String
  output : String
  deriving DecidableEq, Repr

namespace Workspace

def empty (input : String) : Workspace := ⟨[], [["work"]], ["work"], input, ""⟩

def file? (w : Workspace) (place : Place) : Option String := w.files.lookup place

def hasFolder (w : Workspace) (place : Place) : Bool := place = [] || place ∈ w.folders

def hasFile (w : Workspace) (place : Place) : Bool := (w.file? place).isSome

/-- Two dots, which lead up. -/
def isUp (c : List Char) : Bool := c = ['.', '.']

/-- The place that components lead to.  There need not be anything at it, but all that is gone
through must be a folder. -/
def follow (w : Workspace) : Place → List (List Char) → Except SystemError Place
  | place, [] => .ok place
  | place, c :: r =>
    if w.hasFile place then .error .notFolder
    else if w.hasFolder place = false then .error .notFound
    else if Path.isIdle c then w.follow place r
    else if isUp c then w.follow place.dropLast r
    else w.follow (place ++ [String.ofList c]) r

/-- The place where a path starts. -/
def origin (w : Workspace) (path : String) : Place :=
  if path.toList.head? = some '/' then [] else w.current

def place (w : Workspace) (path : String) : Except SystemError Place :=
  if path = "" then .error .notFound else w.follow (w.origin path) (Path.components path)

def isFolder (w : Workspace) (path : String) : Bool :=
  match w.place path with
  | .ok place => w.hasFolder place
  | .error _ => false

def isThere (w : Workspace) (path : String) : Bool :=
  match w.place path with
  | .ok place => w.hasFolder place || w.hasFile place
  | .error _ => false

def text (w : Workspace) (path : String) : Except SystemError String := do
  let place ← w.place path
  match w.file? place with
  | some text => .ok text
  | none => .error (if w.hasFolder place then .isFolder else .notFound)

def names (w : Workspace) (path : String) : List String :=
  match w.place path with
  | .ok place =>
    (w.files.map (·.1) ++ w.folders).filterMap fun p =>
      if p ≠ [] ∧ p.dropLast = place then p.getLast? else none
  | .error _ => []

def folder (w : Workspace) (start : Place) (cs : List (List Char)) : Except SystemError Place :=
  w.follow start (cs ++ [[]])

/-- The workspace after a folder is made below the folder that components lead to. -/
def makeFolder (w : Workspace) (start : Place) (above : List (List Char)) (last : List Char) :
    Except SystemError Workspace := do
  let outer ← w.folder start above
  let place := outer ++ [String.ofList last]
  if Path.isIdle last || isUp last || w.hasFile place || w.hasFolder place then .error .exists
  else .ok { w with folders := w.folders ++ [place] }

/-- The workspace after a folder and those above it are made, given the components, the last one
first.  It is no fault if the folder is there. -/
def makeFolders (w : Workspace) (start : Place) : List (List Char) → Except SystemError Workspace
  | [] => .ok w
  | last :: above =>
    let orElse (w : Workspace) (e : SystemError) : Except SystemError Workspace :=
      match w.folder start (above.reverse ++ [last]) with
      | .ok _ => .ok w
      | .error _ => .error e
    match w.makeFolder start above.reverse last with
    | .ok w => .ok w
    | .error .notFound =>
      match w.makeFolders start above with
      | .error e => .error e
      | .ok w =>
        match w.makeFolder start above.reverse last with
        | .ok w => .ok w
        | .error e => orElse w e
    | .error e => orElse w e

def createFolders (w : Workspace) (path : String) : Except SystemError Workspace :=
  if path = "" then .ok w
  else w.makeFolders (w.origin path) (Path.components path).reverse

def putFile (w : Workspace) (place : Place) (text : String) : Workspace :=
  { w with files := (place, text) :: w.files.filter fun f => f.1 ≠ place }

/-- The workspace after the file at a path is given a text.  A path that ends in a slash is that of
a folder. -/
def writeFile (w : Workspace) (path text : String) : Except SystemError Workspace := do
  if path = "" then .error .notFound
  let cs := (Path.components path).reverse
  let named := cs.dropWhile (· = [])
  let outer ← w.folder (w.origin path) (named.drop 1).reverse
  match named.head? with
  | none => .error .isFolder
  | some last =>
    let place := outer ++ [String.ofList last]
    if cs.head? = some [] || Path.isIdle last || isUp last || w.hasFolder place then
      .error .isFolder
    else .ok (w.putFile place text)

/-- The workspace with a file, and the folders above it; unchanged if there is no place for it. -/
def withFile (w : Workspace) (path text : String) : Workspace :=
  let made := do
    let w ← w.createFolders ((Path.parent? path).getD "")
    w.writeFile path text
  match made with
  | .ok w => w
  | .error _ => w

/-- A change of the workspace that may fail, and then changes nothing. -/
def change (f : Workspace → Except SystemError Workspace) :
    StateM Workspace (Except SystemError Unit) := do
  match f (← get) with
  | .ok w => set w; return .ok ()
  | .error e => return .error e

/-- The operations of a command on a workspace.  The input is read to its end at once. -/
def host : Host (StateM Workspace) where
  readFile path := return (← get).text path
  readInput := modifyGet fun w => (w.input, { w with input := "" })
  isThere path := return (← get).isThere path
  isFolder path := return (← get).isFolder path
  names path := return (← get).names path
  createFolders path := change (·.createFolders path)
  writeFile path text := change (·.writeFile path text)
  print text := modify fun w => { w with output := w.output ++ text }

end Workspace

end QueryScribe
