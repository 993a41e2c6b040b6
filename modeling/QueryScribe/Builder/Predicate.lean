import QueryScribe.Builder.Condition
import QueryScribe.Builder.Expression
import QueryScribe.Builder.Fault
import QueryScribe.Operator.Field

/-!
# Predicates

A predicate is a document whose pairs must all hold.  A pair is a logical operator
with a list of predicates, one of the few operators on the whole document, or a
field with a value.  A field's value is a document of operators or else the value
that the field must equal.  `conditions` reads the pairs from left to right and
stops at the first one that breaks a rule.
-/

namespace QueryScribe.Predicate

open QueryScribe.Code QueryScribe.Value

abbrev Result := Except BuilderError

/-- Stops with a broken rule. -/
def refuse {α : Type} (f : RuleFault) : Result α := .error (.fault f)

/-- A test of a field: the field's name and more arguments. -/
def fieldTest (builder field : String) (args : List Code) : Condition :=
  .test builder (.quoted field :: args)

/-- A condition that is passed on as a document. -/
def rawTest (document : Code) : Condition := .test "Raw" [document]

/-- The flags beside a pattern, which must be a string where they are given. -/
def givenFlags? (field : String) (operators : Fields) : Result (Option String) :=
  match operators.get? "$options" with
  | none => .ok none
  | some (.string s) => .ok (some s)
  | some v => refuse (.optionsNotString field v.kind)

def modulo (field : String) : Value → Result (List Code)
  | .array [divisor, remainder] =>
    match divisor.toInteger?, remainder.toInteger? with
    | some d, some r => .ok [wordOf (Text.signed d), wordOf (Text.signed r)]
    | _, _ => refuse (.modNotNumbers field)
  | _ => refuse (.modNotPair field)

/-- The arguments of `$regex`: a pattern, and the flags beside it or else its own. -/
def pattern (field : String) (given : Option String) : Value → Result (List Code)
  | .string s => .ok [.quoted s, .quoted (given.getD "")]
  | .regex r => .ok [.quoted r.pattern, .quoted (given.getD r.flags)]
  | v => refuse (.regexNotPattern field v.kind)

def unknownOperator (fallback : Bool) (field operator : String) (value : Value) :
    Result Condition :=
  if fallback then .ok (rawTest (rawPair field (rawPair operator value.literal)))
  else .error (.unsupported operator)

/-- The condition of a pair that is neither a logical operator nor a document of operators. -/
def plainPair (key : String) (value : Value) : Result Condition :=
  if key = "$expr" then .ok (.test "Expr" [value.expression])
  else if key = "$where" then
    match value with
    | .string s => .ok (.test "Where" [.quoted s])
    | .javaScript s => .ok (.test "Where" [.quoted s])
    | v => refuse (.whereNotString v.kind)
  else if key = "$jsonSchema" then .ok (.test "JsonSchema" [value.literal])
  else .ok (fieldTest "Eq" key [value.literal])

/-- Whether a key is an operator on the whole document, other than a logical one. -/
def isWhole (key : String) : Bool := key = "$expr" || key = "$where" || key = "$jsonSchema"

/-- The condition of a field operator with a builder, other than one on the elements of an array. -/
def simpleOperator (field operator : String) (spec : FieldOperator) (given : Option String)
    (value : Value) : Result Condition :=
  match spec.shape with
  | .scalar => .ok (fieldTest spec.builder field [value.literal])
  | .list =>
    match value with
    | .array items => .ok (fieldTest spec.builder field (literals items))
    | v => refuse (.listNotArray operator field v.kind)
  | .modulo => (modulo field value).map (fieldTest spec.builder field)
  | .pattern => (pattern field given value).map (fieldTest spec.builder field)
  | .elements => refuse (.elementsNotDocument field value.kind)

mutual
def conditions (fallback : Bool) : List (String × Value) → Result (List Condition)
  | [] => .ok []
  | (key, value) :: r => do
    let first ←
      match Connective.ofKey? key with
      | some connective =>
        match value with
        | .array items => do
          let parts ← alternatives fallback items
          pure [.junction connective parts]
        | v => refuse (.logicalNotArray key v.kind)
      | none =>
        if isWhole key then (plainPair key value).map ([·])
        else
          match value with
          | .document operators =>
            if Fields.isOperators operators then do
              let given ← givenFlags? key operators
              let beside := operators.any (·.1 = "$regex")
              fieldConditions fallback key given beside operators
            else (plainPair key (.document operators)).map ([·])
          | v => (plainPair key v).map ([·])
    let rest ← conditions fallback r
    return first ++ rest
def alternative (fallback : Bool) : Value → Result Condition
  | .document fields => (conditions fallback fields).map Condition.together
  | v => refuse (.logicalElement v.kind)
def alternatives (fallback : Bool) : List Value → Result (List Condition)
  | [] => .ok []
  | v :: r => do
    let first ← alternative fallback v
    let rest ← alternatives fallback r
    return first :: rest
/-- The conditions of a field's operators, one for each; flags beside a pattern are part of it. -/
def fieldConditions (fallback : Bool) (field : String) (given : Option String)
    (beside : Bool) : List (String × Value) → Result (List Condition)
  | [] => .ok []
  | (operator, value) :: r =>
    if operator = "$options" && beside then fieldConditions fallback field given beside r
    else do
      let first ←
        match FieldOperator.find? operator with
        | none => unknownOperator fallback field operator value
        | some spec =>
          match spec.shape, value with
          | .elements, .document fields =>
            if Fields.isOperators fields then
              .ok (fieldTest spec.builder field
                [(rawTest (Value.document fields).literal).code])
            else do
              let parts ← conditions fallback fields
              pure (.element field (Condition.together parts))
          | _, value => simpleOperator field operator spec given value
      let rest ← fieldConditions fallback field given beside r
      return first :: rest
end

/-- The calls of a predicate: one, or none if the predicate is empty. -/
def links (fallback : Bool) (fields : Fields) : Result (List Code) :=
  (conditions fallback fields).map Condition.links

def condition (fallback : Bool) (fields : Fields) : Result Condition :=
  (conditions fallback fields).map Condition.together

end QueryScribe.Predicate
