import QueryScribe.Text.Digits
import QueryScribe.Text.Unseen

/-!
# What can be wrong with a query

A query that is well-formed extended JSON may still break the rules of its
operators.  Each rule that can be broken is a `RuleFault`, with the name and
the kind of value that broke it.
-/

namespace QueryScribe

open QueryScribe.Text

inductive RuleFault where
  /-- A logical operator whose value is no array. -/
  | logicalNotArray (operator kind : String)
  /-- An element of a logical operator's array that is no document. -/
  | logicalElement (kind : String)
  /-- A `$where` that is no code. -/
  | whereNotString (kind : String)
  /-- Flags of a pattern that are no string. -/
  | optionsNotString (field kind : String)
  /-- A list operator whose value is no array. -/
  | listNotArray (operator field kind : String)
  /-- A `$mod` with an operand that is no number. -/
  | modNotNumbers (field : String)
  /-- A `$mod` without exactly two operands. -/
  | modNotPair (field : String)
  /-- A `$regex` that is no pattern. -/
  | regexNotPattern (field kind : String)
  /-- An `$elemMatch` that is no document. -/
  | elementsNotDocument (field kind : String)
  /-- A stage that is no document. -/
  | stageNotDocument (kind : String)
  /-- A stage without an operator. -/
  | emptyStage
  /-- A stage with several operators. -/
  | crowdedStage (count : Nat)
  /-- A stage whose operator needs a document. -/
  | needsDocument (operator kind : String)
  /-- A stage whose operator needs a number. -/
  | needsNumber (operator kind : String)
  deriving DecidableEq, Repr

namespace RuleFault

def fieldName (field : String) : String := String.ofList (shown field)

def message : RuleFault → String
  | logicalNotArray operator kind =>
    "expected array for logical operator " ++ operator ++ ", got " ++ kind
  | logicalElement kind => "expected document in logical operator array, got " ++ kind
  | whereNotString kind => "expected string for $where, got " ++ kind
  | optionsNotString field kind =>
    "expected string for $options on field " ++ fieldName field ++ ", got " ++ kind
  | listNotArray operator field kind =>
    "expected array for " ++ operator ++ " on field " ++ fieldName field ++ ", got " ++ kind
  | modNotNumbers field =>
    "invalid $mod value for field " ++ fieldName field ++ ": expected numbers"
  | modNotPair field =>
    "invalid $mod value for field " ++ fieldName field ++ ": expected [divisor, remainder]"
  | regexNotPattern field kind =>
    "expected string or regex for $regex on field " ++ fieldName field ++ ", got " ++ kind
  | elementsNotDocument field kind =>
    "expected document for $elemMatch on field " ++ fieldName field ++ ", got " ++ kind
  | stageNotDocument kind => "expected document as pipeline stage, got " ++ kind
  | emptyStage => "empty pipeline stage"
  | crowdedStage count =>
    "pipeline stage must have exactly one top-level operator, got "
      ++ String.ofList (decimal count)
  | needsDocument operator kind => "expected document for " ++ operator ++ ", got " ++ kind
  | needsNumber operator kind => "expected number for " ++ operator ++ ", got " ++ kind

end RuleFault

inductive BuilderError where
  /-- A broken rule. -/
  | fault (f : RuleFault)
  /-- A field operator that has no builder. -/
  | unsupported (operator : String)
  deriving DecidableEq, Repr

end QueryScribe
