import QueryScribe.Builder.Literal
import QueryScribe.Operator.Expression

/-!
# Expressions

A document with one key that begins with a dollar sign is an expression, and any
other value is a literal.  An operator of the table becomes a call of its builder
when its argument has the shape that the operator takes.  Nothing here fails: an
argument of another shape is kept as it is in a document with the operator, and the
argument of an operator that is not in the table becomes an expression inside such a
document.
-/

namespace QueryScribe.Value

open QueryScribe.Code

def isOperator (key : String) : Bool := key.toList.head? = some '$'

/-- The code that stands for an argument that is not given, among the fields of its operator. -/
def missing (fields : Fields) : Slot → Code
  | .expression none => .word "nil"
  | .expression (some s) => .quoted s
  | .text s => .quoted s
  | .pattern => .quoted ""
  | .flags =>
    match fields.get? "regex" with
    | some (.regex r) => .quoted r.flags
    | _ => .quoted ""
  | .flag => .word "false"
  | .literal => .word "nil"
  | .branches => .word "nil"

/-- The arguments in the order of the parameters, from what the fields give for them: `none` when
one of the fields does not have the kind that its parameter asks for. -/
def inOrder? (fields : Fields) (given : List (String × Option Code)) (params : List Param) :
    Option (List Code) :=
  params.mapM fun param =>
    match given.lookup param.name with
    | none => some (missing fields param.slot)
    | some arg => arg

def branchCode? (given : List (String × Code)) : Option Code := do
  let case ← given.lookup "case"
  let consequence ← given.lookup "then"
  return .group .curly [part "Case" case, part "Then" consequence] []

def branchesCode (branches : List Code) : Code :=
  .seq [.group .square [] [], .name .builder "SwitchBranch", .group .curly branches []]

mutual
/-- The code of a value in an expression. -/
def expression : Value → Code
  | document [(op, arg)] =>
    if isOperator op then
      match ExpressionOperator.find? op with
      | none => rawPair op (expression arg)
      | some spec =>
        match operands? (expression arg) spec.arity arg with
        | some args => call spec.builder args
        | none => rawPair op (literal arg)
    else composite "D" [pairCode op (literal arg)]
  | v => literal v
def expressions : List Value → List Code
  | [] => []
  | v :: r => expression v :: expressions r
/-- The arguments that an operator takes from its argument, whose own code is given: nothing when
the argument does not have the shape that the arity asks for. -/
def operands? (own : Code) : Arity → Value → Option (List Code)
  | .nullary, _ => some []
  | .unary, _ => some [own]
  | .literal, arg => some [literal arg]
  | .fixed count, array items =>
    if items.length = count then some (expressions items) else none
  | .fixed count, _ => if count = 1 then some [own] else none
  | .variadic, array items => some (expressions items)
  | .variadic, _ => none
  | .named params _, document fields => inOrder? fields (namedArguments params fields) params
  | .named params positional, array items =>
    if positional && items.length = params.length then some (expressions items) else none
  | .named _ _, _ => none
/-- What each field gives for the parameter of its name: code, or nothing when the field does not
have the kind that the parameter asks for. -/
def namedArguments (params : List Param) : List (String × Value) → List (String × Option Code)
  | [] => []
  | (key, v) :: r =>
    match params.find? (·.name = key) with
    | none => namedArguments params r
    | some param => (key, slotCode? (expression v) param.slot v) :: namedArguments params r
/-- What a slot takes from a value, whose own code is given. -/
def slotCode? (own : Code) : Slot → Value → Option Code
  | .expression _, _ => some own
  | .literal, v => some (literal v)
  | .text _, string s => some (.quoted s)
  | .text _, _ => none
  | .flags, string s => some (.quoted s)
  | .flags, _ => none
  | .pattern, string s => some (.quoted s)
  | .pattern, regex re => some (.quoted re.pattern)
  | .pattern, _ => none
  | .flag, bool b => some (.word (if b then "true" else "false"))
  | .flag, _ => none
  | .branches, array items => (branches? items).map branchesCode
  | .branches, _ => none
/-- The branches of a case distinction, if each is a document with its two parts. -/
def branches? : List Value → Option (List Code)
  | [] => some []
  | document fields :: r => do
    let branch ← branchCode? (branchParts fields)
    let rest ← branches? r
    return branch :: rest
  | _ :: _ => none
def branchParts : List (String × Value) → List (String × Code)
  | [] => []
  | (key, v) :: r =>
    if key = "case" ∨ key = "then" then (key, expression v) :: branchParts r else branchParts r
end

theorem expressions_eq_map (vs : List Value) : expressions vs = vs.map expression := by
  induction vs with
  | nil => rw [expressions, List.map_nil]
  | cons v r ih => rw [expressions, List.map_cons, ih]

end QueryScribe.Value
