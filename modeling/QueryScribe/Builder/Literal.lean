import QueryScribe.Bytes
import QueryScribe.Code.Basic
import QueryScribe.Double.Layout
import QueryScribe.Value.Basic

/-!
# Literals

Every value has a literal: code that builds the value as it stands, whatever
operators its keys may name.  Documents and arrays become composite values of the
database package, in order and with repeated keys.
-/

namespace QueryScribe.Value

open QueryScribe.Text QueryScribe.Code

def wordOf (s : List Char) : Code := .word (String.ofList s)

/-- A byte in hexadecimal. -/
def byteCode (b : UInt8) : Code := wordOf ('0' :: 'x' :: hexFixed 2 b.toNat)

/-- A double that stays a double: with a point or a power, or by name. -/
def doubleCode : Double → Code
  | .finite negative x => wordOf (Double.writeFinite .code negative x)
  | .infinite negative =>
    .seq [.word "math.Inf", .group .round [.word (if negative then "-1" else "1")] []]
  | .nan _ => .seq [.word "math.NaN", .group .round [] []]

/-- A call of a function without a name, which converts a string to a type and returns the result
under the name `local`, the error left aside. -/
def parsedCode (type reader binding : String) (text : List Char) : Code :=
  .seq [.word "func", .group .round [] [], .word " ", .name .bson type, .word " ",
    .group .curly [.seq [.word (" " ++ binding ++ ", _ := "), .name .bson reader,
      .group .round [.quoted (String.ofList text)] [], .word ("; return " ++ binding ++ " ")]] [],
    .group .round [] []]

def objectIdCode (id : ObjectId) : Code := parsedCode "ObjectID" "ObjectIDFromHex" "id" id.toHex

def part (name : String) (value : Code) : Code := .seq [.word (name ++ ": "), value]

def pairCode (key : String) (value : Code) : Code := .group .curly [.quoted key, value] []

def rawPair (key : String) (value : Code) : Code := composite "D" [pairCode key value]

mutual
def literal : Value → Code
  | null => .word "nil"
  | bool b => .word (if b then "true" else "false")
  | int32 i => wordOf (signed i.toInt)
  | int64 i => wordOf (signed i.toInt)
  | double d => doubleCode d
  | string s => .quoted s
  | array items => composite "A" (literals items)
  | document fields => composite "D" (entries fields)
  | objectId id => objectIdCode id
  | regex r => .quoted r.pattern
  | dateTime milliseconds => convert "DateTime" (wordOf (signed milliseconds.toInt))
  | decimal128 d => parsedCode "Decimal128" "ParseDecimal128" "d" d.write
  | binary b =>
    composite "Binary" [part "Subtype" (byteCode b.subtype.toByte),
      part "Data" (.seq [.group .square [] [], .word "byte",
        .group .curly (b.bytes.map byteCode) []])]
  | timestamp t =>
    composite "Timestamp" [part "T" (wordOf (decimal t.time.toNat)),
      part "I" (wordOf (decimal t.increment.toNat))]
  | symbol s => convert "Symbol" (.quoted s)
  | javaScript code => convert "JavaScript" (.quoted code)
  | javaScriptWithScope code scope =>
    composite "CodeWithScope" [part "Code" (convert "JavaScript" (.quoted code)),
      part "Scope" (composite "D" (entries scope))]
  | dbPointer target id =>
    composite "DBPointer" [part "DB" (.quoted target), part "Pointer" (objectIdCode id)]
  | minKey => composite "MinKey" []
  | maxKey => composite "MaxKey" []
  | undefined => composite "Undefined" []
def literals : List Value → List Code
  | [] => []
  | v :: r => literal v :: literals r
def entries : List (String × Value) → List Code
  | [] => []
  | (k, v) :: r => pairCode k (literal v) :: entries r
end

end QueryScribe.Value
