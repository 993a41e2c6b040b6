import QueryScribe.Bytes
import QueryScribe.Json.Writer
import QueryScribe.Value.Basic

/-!
# Values as JSON

A value of a kind that JSON has stands for itself.  The others are objects with
one key that begins with a dollar sign, such as `$oid` or `$date`.  An integer of
64 bits is a plain number when it is too large for 32 bits, for then no other
kind could be meant; and a double is a plain number when it is finite.
-/

namespace QueryScribe

open QueryScribe.Text

namespace Json

def single (key : String) (value : Json) : Json := .object [(key, value)]

def ofChars (s : List Char) : Json := .string (String.ofList s)

def ofObjectId (id : ObjectId) : Json := single "$oid" (ofChars id.toHex)

def ofInt (i : Int) : Json := .number (.integer i)

def ofLong (i : Int64) : Json := single "$numberLong" (ofChars (signed i.toInt))

/-- A double: a number, or the name of one that is not finite. -/
def ofDouble : Double → Json
  | .finite negative x => .number (.double negative x)
  | .infinite negative =>
    single "$numberDouble" (.string (if negative then "-Infinity" else "Infinity"))
  | .nan negative => single "$numberDouble" (.string (if negative then "-NaN" else "NaN"))

end Json

namespace Value

open Json

mutual
def toJson : Value → Json
  | null => .null
  | bool b => .bool b
  | int32 i => ofInt i.toInt
  | int64 i => if fits32 i.toInt then ofLong i else ofInt i.toInt
  | double d => ofDouble d
  | string s => .string s
  | array items => .array (itemsToJson items)
  | document fields => .object (fieldsToJson fields)
  | objectId id => ofObjectId id
  | regex r =>
    single "$regularExpression" (.object [("pattern", .string r.pattern),
      ("options", .string r.flags)])
  | dateTime milliseconds => single "$date" (ofLong milliseconds)
  | decimal128 d => single "$numberDecimal" (ofChars d.write)
  | binary b =>
    single "$binary" (.object [("base64", ofChars (Bytes.toBase64 b.bytes)),
      ("subType", ofChars (hexFixed 2 b.subtype.toByte.toNat))])
  | timestamp t =>
    single "$timestamp" (.object [("t", ofInt t.time.toNat), ("i", ofInt t.increment.toNat)])
  | symbol s => single "$symbol" (.string s)
  | javaScript code => single "$code" (.string code)
  | javaScriptWithScope code scope =>
    .object [("$code", .string code), ("$scope", .object (fieldsToJson scope))]
  | dbPointer target id =>
    single "$dbPointer" (.object [("$ref", .string target), ("$id", ofObjectId id)])
  | minKey => single "$minKey" (ofInt 1)
  | maxKey => single "$maxKey" (ofInt 1)
  | undefined => single "$undefined" (.bool true)
def itemsToJson : List Value → List Json
  | [] => []
  | v :: r => toJson v :: itemsToJson r
def fieldsToJson : List (String × Value) → List (String × Json)
  | [] => []
  | (k, v) :: r => (k, toJson v) :: fieldsToJson r
end

/-- The value of a number: an integer in the fewest bits, or a double. -/
def ofNumber : JsonNumber → Value
  | .integer i => if fits64 i then ofInteger i else double (Double.ofInt i)
  | .double negative x => double (.finite negative x)

def compact (v : Value) : List Char := v.toJson.compact

def pretty (v : Value) : List Char := v.toJson.pretty

def toText (v : Value) : String := String.ofList v.compact

def toPrettyText (v : Value) : String := String.ofList v.pretty

end Value

end QueryScribe
