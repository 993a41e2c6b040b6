import QueryScribe.Builder.Pipeline
import QueryScribe.Code.Layout
import QueryScribe.Options.Basic
import QueryScribe.Value.Surrogate

/-!
# Queries

A query is extended JSON: an object is a filter and an array is a pipeline.  Its
code is made in three steps, each of which may refuse it: the text is read as a
value, the value becomes a chain of calls, and the chain is written with
the package names filled in and laid out.
-/

namespace QueryScribe

open QueryScribe.Text

inductive QueryShape where
  | object
  | array
  | either
  deriving DecidableEq, Repr

namespace QueryShape

def name : QueryShape → String
  | object => "a JSON object"
  | array => "a JSON array"
  | either => "a JSON object or array"

end QueryShape

inductive QueryError where
  /-- The text is not extended JSON. -/
  | malformed (failure : Json.Failure)
  /-- The value is of another shape than asked for. -/
  | shape (expected : QueryShape) (kind : String)
  /-- A rule of the query's operators is broken. -/
  | rule (fault : RuleFault)
  /-- A field operator has no builder. -/
  | unsupported (operator : String)
  /-- The text of the code cannot be laid out. -/
  | formatting (fault : Layout.Fault) (raw : String)
  deriving DecidableEq, Repr

namespace QueryError

def message : QueryError → String
  | malformed failure => "failed to parse JSON: " ++ failure.message
  | shape expected kind => "failed to parse JSON: expected " ++ expected.name ++ ", got " ++ kind
  | rule fault => fault.message
  | unsupported operator => "unsupported operator: " ++ operator
  | formatting fault raw =>
    "failed to format generated code: " ++ fault.message ++ "\nOutput was:\n" ++ raw

def ofBuilder : BuilderError → QueryError
  | .fault f => rule f
  | .unsupported operator => unsupported operator

end QueryError

/-- Indents code; a text with unmatched brackets or an open literal is refused. -/
def formatCode (raw : String) : Except QueryError String :=
  match Layout.format raw.toList with
  | .ok text => .ok (String.ofList text)
  | .error fault => .error (.formatting fault raw)

def readValue (text : String) : Except QueryError Value :=
  (Value.ofText text).mapError .malformed

namespace Options

def packages (o : Options) : Packages := ⟨o.builderPackage, o.bsonPackage⟩

end Options

namespace Query

/-- The text of a chain of calls, one to a line, before it is laid out. -/
def chain (p : Packages) (links : List Code) : List Char :=
  ['.', '\n'].intercalate (links.map (Code.render p))

/-- The laid-out text of calls. -/
def write (o : Options) (r : Predicate.Result (List Code)) : Except QueryError String :=
  match r with
  | .ok links => formatCode (String.ofList (chain o.packages links))
  | .error e => .error (.ofBuilder e)

def ofFilter (o : Options) (fields : Fields) : Except QueryError String :=
  write o (Predicate.links o.rawFilterFallback fields)

def ofPipeline (o : Options) (stages : List Value) : Except QueryError String :=
  write o (Pipeline.links o.rawFilterFallback stages)

/-- The code of a value: a document is a filter and an array a pipeline. -/
def ofValue (o : Options) : Value → Except QueryError String
  | .array stages => ofPipeline o stages
  | .document fields => ofFilter o fields
  | v => .error (.shape .either v.kind)

def ofFilterText (o : Options) (text : String) : Except QueryError String := do
  match ← readValue text with
  | .document fields => ofFilter o fields
  | v => .error (.shape .object v.kind)

def ofPipelineText (o : Options) (text : String) : Except QueryError String := do
  match ← readValue text with
  | .array stages => ofPipeline o stages
  | v => .error (.shape .array v.kind)

def trimmed (text : String) : String := String.ofList (trim text.toList)

/-- The code of a text, which is a pipeline if it begins with a bracket and else a filter. -/
def ofText (o : Options) (text : String) : Except QueryError String :=
  let text := trimmed text
  if text.toList.head? = some '[' then ofPipelineText o text else ofFilterText o text

end Query

end QueryScribe
