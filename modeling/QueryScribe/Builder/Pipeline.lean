import QueryScribe.Builder.Predicate

/-!
# Pipelines

A pipeline is a list of stages, each a document with one operator, and becomes a
chain of method calls, one for each stage.  A stage without a method of its own, or
whose value the method cannot take, is passed on as it is.
-/

namespace QueryScribe.Pipeline

open QueryScribe.Code QueryScribe.Value QueryScribe.Predicate

def raw (operator : String) (value : Value) : Code :=
  method "RawStage" [.quoted operator, value.literal]

def fields (operator : String) : Value → Result Fields
  | .document fields => .ok fields
  | v => refuse (.needsDocument operator v.kind)

def fieldCall (builder : String) (field : String × Value) : Code :=
  call builder [.quoted field.1, field.2.expression]

def addFields (name operator : String) (value : Value) : Result Code := do
  let added ← fields operator value
  return method name [callLines "AddFieldsSpec" (added.map (fieldCall "AddField"))]

def listed (name operator : String) (value : Value) : Result Code := do
  let listed ← fields operator value
  let line (field : String × Value) : Code :=
    composite "E" [.quoted field.1, field.2.literal]
  return method name [.seq [.name .bson "D", .group .curly [] (listed.map line)]]

/-- The grouping stage: the key first, then the accumulators in order. -/
def group (value : Value) : Result Code := do
  let grouped ← fields "$group" value
  let key :=
    match grouped.get? "_id" with
    | some v => v.expression
    | none => .word "nil"
  let accumulators := (grouped.filter (·.1 ≠ "_id")).map (fieldCall "GroupAcc")
  return method "Group" [.seq [.name .builder "GroupSpec", .group .round [key] accumulators]]

def counted (name operator : String) (value : Value) : Result Code :=
  match value.toInteger? with
  | some i => .ok (method name [wordOf (Text.signed i)])
  | none => refuse (.needsNumber operator value.kind)

/-- A stage that takes a string, and is passed on with any other value. -/
def named (name operator : String) : Value → Code
  | .string s => method name [.quoted s]
  | v => raw operator v

/-- The string of a field, empty if there is none. -/
def textOf (key : String) (fields : Fields) : String :=
  ((fields.get? key).bind Value.toString?).getD ""

/-- The stage that writes a collection: by name, or by database and name. -/
def out : Value → Code
  | .document fields =>
    method "OutToDb" [.quoted (textOf "db" fields), .quoted (textOf "coll" fields)]
  | v => named "Out" "$out" v

/-- The stage that keeps the documents of which a predicate holds. -/
def matching (fallback : Bool) : Value → Result Code
  | .document predicate => do
    let c ← condition fallback predicate
    return method "Match" [c.code]
  | v => refuse (.needsDocument "$match" v.kind)

def stage (fallback : Bool) (operator : String) (value : Value) : Result Code :=
  match operator with
  | "$match" => matching fallback value
  | "$addFields" => addFields "AddFields" operator value
  | "$set" => addFields "SetFields" operator value
  | "$project" => listed "Project" operator value
  | "$sort" => listed "Sort" operator value
  | "$group" => group value
  | "$limit" => counted "Limit" operator value
  | "$skip" => counted "Skip" operator value
  | "$count" => .ok (named "Count" operator value)
  | "$unwind" => .ok (named "Unwind" operator value)
  | "$replaceRoot" => .ok (method "ReplaceRoot" [value.literal])
  | "$replaceWith" => .ok (method "ReplaceWith" [value.literal])
  | "$out" => .ok (out value)
  | _ => .ok (raw operator value)

def stageOf (fallback : Bool) : Value → Result Code
  | .document [] => refuse .emptyStage
  | .document [(operator, value)] => stage fallback operator value
  | .document fields => refuse (.crowdedStage fields.length)
  | v => refuse (.stageNotDocument v.kind)

/-- The calls of a pipeline: the one that makes it, and one for each stage. -/
def links (fallback : Bool) (stages : List Value) : Result (List Code) := do
  let calls ← stages.mapM (stageOf fallback)
  return call "NewPipeline" [] :: calls

end QueryScribe.Pipeline
