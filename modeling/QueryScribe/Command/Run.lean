import QueryScribe.Command.Arguments
import QueryScribe.Command.Glob
import QueryScribe.Json.Reader
import QueryScribe.Json.Writer
import QueryScribe.Options.Reader
import QueryScribe.Selector.Reader

/-!
# Running commands

A command settles its options, collects the texts of its queries with a label each,
turns every text into an output, and writes the outputs to a file or prints them.
All texts are collected before the first one is looked at, so a file that cannot be
read is reported before any mistake in a query.
-/

namespace QueryScribe

open CommandLine

structure Source where
  label : String
  text : String
  deriving DecidableEq, Repr

inductive SelectionFault where
  /-- The text is not JSON. -/
  | input
  | selector (fault : Selector.Fault)
  deriving DecidableEq, Repr

namespace SelectionFault

def message : SelectionFault → String
  | input => "input is not JSON"
  | selector _ => "jq"

end SelectionFault

inductive CommandError where
  /-- The file of settings cannot be read. -/
  | config (path : String) (error : SystemError)
  | settings (fault : SettingsFault)
  | pattern (error : Glob.SyntaxError)
  /-- A pattern stands for nothing. -/
  | noMatch (text : String)
  | source (label : String) (error : SystemError)
  | selection (label : String) (fault : SelectionFault)
  /-- A query has no code. -/
  | encode (label : String) (error : QueryError)
  /-- A query has no value. -/
  | decode (label : String) (error : QueryError)
  | create (folder : String) (error : SystemError)
  | write (file : String) (error : SystemError)
  deriving DecidableEq

namespace CommandError

def message : CommandError → String
  | config path error => "failed to read config " ++ path ++ ": " ++ error.message
  | settings .unreadable => "invalid config"
  | settings (.package fault) => fault.message
  | pattern error => error.message
  | noMatch text => "glob pattern matched no files: " ++ text
  | source label error => "failed to read source file " ++ label ++ ": " ++ error.message
  | selection label fault =>
    "failed to apply jq expression to " ++ label ++ ": " ++ fault.message
  | encode label error => "failed to translate " ++ label ++ ": " ++ error.message
  | decode label error => "failed to decode " ++ label ++ ": " ++ error.message
  | create folder error => "failed to create " ++ folder ++ ": " ++ error.message
  | write file error => "failed to write " ++ file ++ ": " ++ error.message

end CommandError

/-! ### Options -/

/-- The options after the changes that a command line makes. -/
def Options.adjust (o : Options) (a : Adjustment) : Options where
  builderPackage := a.builderPackage.getD o.builderPackage
  bsonPackage := a.bsonPackage.getD o.bsonPackage
  rawFilterFallback := o.rawFilterFallback || a.rawFilterFallback
  unescapeFallback := o.unescapeFallback && !a.noUnescape

/-! ### Texts -/

/-- The parts that a selector picks from a source, each as the text of a query.  If there are
several, their labels are numbered. -/
def Source.select (selector : String) (s : Source) : Except CommandError (List Source) :=
  match Json.read s.text.toList with
  | .error _ => .error (.selection s.label .input)
  | .ok tree =>
    match Selector.apply selector tree.collapse with
    | .error fault => .error (.selection s.label (.selector fault))
    | .ok [part] => .ok [⟨s.label, String.ofList (Json.compact part)⟩]
    | .ok parts => .ok (parts.mapIdx fun i part =>
        ⟨s.label ++ "#" ++ String.ofList (Text.decimal i), String.ofList (Json.compact part)⟩)

def Source.selectAll (selector : Option String) (sources : List Source) :
    Except CommandError (List Source) :=
  match selector with
  | none => .ok sources
  | some text => List.flatten <$> sources.mapM (Source.select text)

/-- Outputs with the labels of their sources above them.  One output alone has no label. -/
def joined (sources : List Source) (outputs : List String) : String :=
  match outputs with
  | [output] => output
  | _ => "\n\n".intercalate (sources.zipWith (fun s output => "// " ++ s.label ++ "\n" ++ output)
      outputs)

def output (o : Options) : Task → Source → Except CommandError String
  | .go mode _, s => (Query.code o mode s.text).mapError (.encode s.label)
  | .json compact unescape, s =>
    (Query.canonical compact unescape s.text).mapError (.decode s.label)

/-! ### Commands -/

namespace CommandLine.Command

variable {m : Type → Type} [Monad m]

/-- The operations of a command that may fail. -/
abbrev Attempt (m : Type → Type) := ExceptT CommandError m

def ofExcept {α : Type} (x : Except CommandError α) : Attempt m α := ExceptT.mk (pure x)

/-- An operation of the host, and what its failure means to the command. -/
def attempt {α : Type} (cause : SystemError → CommandError) (x : m (Except SystemError α)) :
    Attempt m α :=
  ExceptT.mk ((·.mapError cause) <$> x)

def options (host : Host m) : Task → Attempt m Options
  | .json _ _ => return .standard
  | .go _ a => do
    let o ← match a.config with
      | none => pure Options.standard
      | some path => do
        let text ← attempt (.config path) (host.readFile path)
        ofExcept ((Options.ofSettings text).mapError .settings)
    ofExcept ((o.adjust a).validated.mapError (.settings ∘ .package))

/-- The paths that a text stands for: itself, or the matches of a pattern. -/
def paths (host : Host m) (text : String) : Attempt m (List String) := do
  if Glob.isPattern text then
    match Glob.Pattern.ofText text with
    | .error e => throw (.pattern e)
    | .ok p =>
      match ← ExceptT.lift (p.paths host) with
      | [] => throw (.noMatch text)
      | found => return found
  else return [text]

def source (host : Host m) (path : String) : Attempt m Source := do
  if path = "-" then return ⟨path, ← host.readInput⟩
  else return ⟨path, ← attempt (.source path) (host.readFile path)⟩

def sources (host : Host m) : Origin → Attempt m (List Source)
  | .inline text => return [⟨"query", text⟩]
  | .standardInput => return [⟨"stdin", ← host.readInput⟩]
  | .files patterns => do
    let found ← patterns.mapM (paths host)
    found.flatten.mapM (source host)

/-- Writes a text to a file, in a folder that is made if it is missing, or prints it. -/
def deliver (host : Host m) (out : Option String) (text : String) : Attempt m Unit := do
  match out with
  | none => host.print (text ++ "\n")
  | some file =>
    match Path.parent? file with
    | none => pure ()
    | some folder => attempt (.create folder) (host.createFolders folder)
    attempt (.write file) (host.writeFile file (text ++ "\n"))

def run (host : Host m) (c : Command) : m (Except CommandError Unit) := ExceptT.run do
  unless c.idle do
    let o ← options host c.task
    let found ← sources host c.origin
    let selected ← ofExcept (Source.selectAll c.selector found)
    let outputs ← ofExcept (selected.mapM (output o c.task))
    deliver host c.out (joined selected outputs)

end CommandLine.Command

end QueryScribe
