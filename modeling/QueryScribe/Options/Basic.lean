import QueryScribe.Text.Letter
import QueryScribe.Text.Unseen

/-!
# Options

The options of generated code are the two package names that qualify its
calls, and two switches.  A package name must be an identifier: a letter or an
underscore, then letters, digits and underscores.  The builder package may also be
empty, and then its functions are called without a qualifier.
-/

namespace QueryScribe

open QueryScribe.Text

structure Options where
  /-- The package of the query builder; empty for calls without a qualifier. -/
  builderPackage : String
  /-- The package of the database's value types. -/
  bsonPackage : String
  /-- Whether an unknown field operator becomes a raw condition, and no error. -/
  rawFilterFallback : Bool
  /-- Whether text that was escaped for a shell is tried once more without the escapes. -/
  unescapeFallback : Bool
  deriving DecidableEq, Repr

inductive PackageFault where
  | builder (name : String)
  | bson (name : String)
  deriving DecidableEq, Repr

namespace PackageFault

def message : PackageFault → String
  | builder name => "builder-package " ++ String.ofList (shown name) ++ " is not a Go identifier"
  | bson name => "bson-package " ++ String.ofList (shown name) ++ " is not a Go identifier"

end PackageFault

namespace Options

/-- The options when nothing is said about them. -/
def standard : Options := ⟨"gmqb", "bson", false, true⟩

def startsIdentifier (c : Char) : Bool := c = '_' || isLetter c

def continuesIdentifier (c : Char) : Bool := startsIdentifier c || isDecimalDigit c

def isIdentifier : List Char → Bool
  | [] => false
  | c :: r => startsIdentifier c && r.all continuesIdentifier

/-- The first package name that cannot be used, the builder's before the other. -/
def fault? (o : Options) : Option PackageFault :=
  if o.builderPackage ≠ "" ∧ isIdentifier o.builderPackage.toList = false then
    some (.builder o.builderPackage)
  else if isIdentifier o.bsonPackage.toList = false then some (.bson o.bsonPackage)
  else none

def Valid (o : Options) : Prop := o.fault? = none

instance (o : Options) : Decidable o.Valid := inferInstanceAs (Decidable (_ = _))

theorem standard_valid : standard.Valid := by decide +kernel

end Options

end QueryScribe
