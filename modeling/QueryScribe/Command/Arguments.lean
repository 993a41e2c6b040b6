import QueryScribe.Command.Retry

/-!
# Command lines

A command line is a list of arguments.  The first word names the command, and the
options of that command follow.  An option that takes values may have one attached,
as in `--mode=filter` or `-qX`; otherwise it stays open until the next option and
takes the words behind it.  An option is checked only when the next one is known,
so of two mistakes the one that is reached first is reported.
-/

namespace QueryScribe.CommandLine

/-- An answer to a command line that names no command to run. -/
inductive Refusal where
  /-- Help was asked for. -/
  | help
  /-- The version was asked for. -/
  | version
  /-- Nothing was said at all. -/
  | helpForNothing
  /-- There are options, but no command. -/
  | noCommand
  /-- A word that should be a command is none. -/
  | unknownCommand
  /-- An option or a word that does not belong to the command. -/
  | unknownArgument
  /-- An option without its value, or with one that it does not take. -/
  | badValue
  /-- A value attached to an option that takes none. -/
  | needlessValue
  /-- Options that exclude each other, or an option that is repeated. -/
  | conflict
  deriving DecidableEq, Repr

inductive Key where
  | query
  | input
  | selector
  | config
  | package
  | bsonPackage
  | rawFilterFallback
  | noUnescape
  | mode
  | compact
  | out
  | noOp
  | verbose
  | help
  | version
  deriving DecidableEq, Repr

/-- How many values an option takes. -/
inductive Takes where
  | nothing
  | one
  | many
  deriving DecidableEq, Repr

namespace Key

def long : Key → String
  | query => "query"
  | input => "input"
  | selector => "jq-expr"
  | config => "config"
  | package => "package"
  | bsonPackage => "bson-package"
  | rawFilterFallback => "raw-filter-fallback"
  | noUnescape => "no-unescape"
  | mode => "mode"
  | compact => "compact"
  | out => "out"
  | noOp => "no-op"
  | verbose => "verbose"
  | help => "help"
  | version => "version"

def short? : Key → Option Char
  | query => some 'q'
  | input => some 'i'
  | out => some 'o'
  | verbose => some 'v'
  | help => some 'h'
  | version => some 'V'
  | _ => none

def takes : Key → Takes
  | query | selector | config | package | bsonPackage | mode | out => .one
  | input => .many
  | rawFilterFallback | noUnescape | compact | noOp | verbose | help | version => .nothing

def repeats : Key → Bool
  | input | verbose => true
  | _ => false

def mode? : String → Option QueryMode
  | "auto" => some .auto
  | "filter" => some .filter
  | "pipeline" => some .pipeline
  | _ => none

def accepts : Key → String → Bool
  | mode, text => (mode? text).isSome
  | config, text => text ≠ ""
  | out, text => text ≠ ""
  | _, _ => true

def common : List Key := [verbose, help, version]

def ofGo : List Key :=
  [query, input, selector, config, package, bsonPackage, rawFilterFallback, noUnescape, mode, out,
    noOp, verbose, help]

def ofJson : List Key :=
  [query, input, selector, compact, noUnescape, out, noOp, verbose, help]

end Key

/-- An argument by the dashes in front of it. -/
inductive Argument where
  /-- Two dashes alone. -/
  | separator
  /-- Two dashes and a name, with what stands behind an equals sign. -/
  | long (name : List Char) (attached : Option (List Char))
  /-- One dash and letters. -/
  | cluster (letters : List Char)
  | word (text : String)

namespace Argument

def ofText (text : String) : Argument :=
  match text.toList with
  | ['-', '-'] => .separator
  | '-' :: '-' :: r =>
    .long (r.takeWhile (· ≠ '=')) ((r.dropWhile (· ≠ '=')).tail?)
  | '-' :: c :: r => .cluster (c :: r)
  | _ => .word text

end Argument

/-- The options so far, each with its values, and the one that is still open. -/
structure Progress where
  given : List (Key × List String)
  pending : Option (Key × List String)

namespace Progress

def start : Progress := ⟨[], none⟩

def record (p : Progress) (key : Key) (values : List String) : Except Refusal Progress :=
  if key.takes ≠ .nothing ∧ values = [] then .error .badValue
  else if key.repeats = false ∧ key ∈ p.given.map (·.1) then .error .conflict
  else if values.all key.accepts then .ok ⟨p.given ++ [(key, values)], none⟩
  else .error .badValue

/-- The progress after the option that is still open. -/
def settle (p : Progress) : Except Refusal Progress :=
  match p.pending with
  | none => .ok p
  | some (key, values) => p.record key values

def flag (p : Progress) (key : Key) : Except Refusal Progress := do
  let p ← p.settle
  match key with
  | .help => .error .help
  | .version => .error .version
  | _ => p.record key []

def attach (p : Progress) (key : Key) (value : List Char) : Except Refusal Progress := do
  (← p.settle).record key [String.ofList value]

def await (p : Progress) (key : Key) : Except Refusal Progress := do
  return { (← p.settle) with pending := some (key, []) }

def long (keys : List Key) (p : Progress) (name : List Char) (attached : Option (List Char)) :
    Except Refusal Progress :=
  match keys.find? fun key => key.long.toList = name with
  | none => .error .unknownArgument
  | some key =>
    match key.takes, attached with
    | .nothing, none => p.flag key
    | .nothing, some _ => .error .needlessValue
    | _, none => p.await key
    | _, some value => p.attach key value

/-- The progress after options by their letters, the last of which may have a value attached. -/
def cluster (keys : List Key) : Progress → List Char → Except Refusal Progress
  | p, [] => .ok p
  | p, c :: r =>
    match keys.find? fun key => key.short? = some c with
    | none => .error .unknownArgument
    | some key =>
      if key.takes = .nothing then (p.flag key).bind fun p => cluster keys p r
      else match r with
        | [] => p.await key
        | d :: value => p.attach key (if d = '=' then value else r)

/-- The progress after a word, which must be a value of the open option. -/
def word (p : Progress) (text : String) : Except Refusal Progress :=
  match p.pending with
  | none => .error .unknownArgument
  | some (key, values) =>
    if key.takes = .many ∨ values = [] then
      .ok { p with pending := some (key, values ++ [text]) }
    else .error .unknownArgument

def read (keys : List Key) : Progress → List String → Except Refusal Progress
  | p, [] => p.settle
  | p, text :: rest =>
    match Argument.ofText text with
    | .separator => if rest.isEmpty then p.settle else .error .unknownArgument
    | .long name attached => (p.long keys name attached).bind fun p => read keys p rest
    | .cluster letters => (p.cluster keys letters).bind fun p => read keys p rest
    | .word w => (p.word w).bind fun p => read keys p rest

def has (p : Progress) (key : Key) : Bool := key ∈ p.given.map (·.1)

def values (p : Progress) (key : Key) : List String :=
  p.given.flatMap fun (k, values) => if k = key then values else []

def value? (p : Progress) (key : Key) : Option String := (p.values key).head?

end Progress

inductive Origin where
  /-- The command line itself. -/
  | inline (text : String)
  /-- Files, by their paths or by patterns of paths. -/
  | files (patterns : List String)
  | standardInput
  deriving DecidableEq, Repr

structure Adjustment where
  /-- A file of settings. -/
  config : Option String
  builderPackage : Option String
  bsonPackage : Option String
  rawFilterFallback : Bool
  noUnescape : Bool
  deriving DecidableEq, Repr

inductive Task where
  /-- Write its code. -/
  | go (mode : QueryMode) (adjustment : Adjustment)
  /-- Write its value as extended JSON. -/
  | json (compact : Bool) (unescape : Bool)
  deriving DecidableEq, Repr

structure Command where
  task : Task
  origin : Origin
  /-- What to select from each text before it is a query. -/
  selector : Option String
  /-- The file to write. -/
  out : Option String
  /-- Whether to do nothing at all. -/
  idle : Bool
  deriving DecidableEq, Repr

namespace Command

def ofOptions (task : Progress → Task) (p : Progress) : Except Refusal Command := do
  let origin ← match p.value? .query, p.values .input with
    | some text, [] => .ok (Origin.inline text)
    | none, [] => .ok .standardInput
    | none, patterns => .ok (.files patterns)
    | some _, _ :: _ => .error .conflict
  return ⟨task p, origin, p.value? .selector, p.value? .out, p.has .noOp⟩

def goTask (p : Progress) : Task :=
  .go (((p.value? .mode).bind Key.mode?).getD .auto)
    ⟨p.value? .config, p.value? .package, p.value? .bsonPackage, p.has .rawFilterFallback,
      p.has .noUnescape⟩

def jsonTask (p : Progress) : Task := .json (p.has .compact) (!p.has .noUnescape)

def names : List String := ["go", "json", "help"]

def ofWord (word : String) (rest : List String) : Except Refusal Command :=
  match word with
  | "go" => ((Progress.start.read Key.ofGo rest).bind (ofOptions goTask))
  | "json" => ((Progress.start.read Key.ofJson rest).bind (ofOptions jsonTask))
  | "help" =>
    match rest with
    | [] => .error .help
    | [name] => .error (if name ∈ names then .help else .unknownCommand)
    | _ => .error .unknownCommand
  | _ => .error .unknownCommand

def missing (p : Progress) : Refusal := if p.given = [] then .helpForNothing else .noCommand

/-- The command that arguments make after some of the common options. -/
def ofArgumentsAfter : Progress → List String → Except Refusal Command
  | p, [] => .error (missing p)
  | p, text :: rest =>
    match Argument.ofText text with
    | .separator =>
      match rest with
      | [] => .error (missing p)
      | w :: _ => .error (if w ∈ names then .unknownArgument else .unknownCommand)
    | .long name attached => (p.long Key.common name attached).bind (ofArgumentsAfter · rest)
    | .cluster letters => (p.cluster Key.common letters).bind (ofArgumentsAfter · rest)
    | .word w => ofWord w rest

def ofArguments (arguments : List String) : Except Refusal Command :=
  ofArgumentsAfter .start arguments

end Command

end QueryScribe.CommandLine
