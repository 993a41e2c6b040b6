import QueryScribe.Bytes
import QueryScribe.Decimal128
import QueryScribe.Double.Basic
import QueryScribe.Instant
import QueryScribe.Json.Reader
import QueryScribe.Value.Encoding

/-!
# Surrogate objects

An object that has one of sixteen keys, such as `$oid`, stands for a value of a
kind that JSON lacks.  The first of the keys in a fixed order decides which, and
the object must then spell that kind and have nothing else in it; only `$code`
may have a `$scope` beside it.  Where the body of a surrogate has fixed fields, an
array with their values in order will do as well.
-/

namespace QueryScribe.Surrogate

open QueryScribe.Text QueryScribe.Json

/-! ### Bodies -/

def text? : Json → Option String
  | .string s => some s
  | _ => none

/-- The values of a body with these fields and no others, in the order of the names. -/
def body? (names : List String) : Json → Option (List Json)
  | .array items => if items.length = names.length then some items else none
  | .object members =>
    if members.length = names.length then names.mapM (member? · members) else none
  | _ => none

def long? (s : String) : Option Int := do
  let i ← readSigned? s.toList
  if fits64 i then some i else none

def word? : Json → Option UInt32
  | .number (.integer i) => if 0 ≤ i ∧ i < 0x100000000 then some (UInt32.ofNat i.toNat) else none
  | _ => none

def isOne : Json → Bool
  | .number (.integer i) => i = 1
  | _ => false

/-- The body of `$numberInt`. -/
def readInt? (j : Json) : Option Value := do
  let i ← readSigned? (← text? j).toList
  if fits32 i then some (.int32 (Int32.ofInt i)) else none

def readLong? (j : Json) : Option Value := do
  return .int64 (Int64.ofInt (← long? (← text? j)))

def readBinary? (j : Json) : Option Value := do
  match ← body? ["base64", "subType"] j with
  | [data, subtype] =>
    let bytes ← Bytes.ofBase64? (← text? data).toList
    match ← Bytes.ofHex? (← text? subtype).toList with
    | [b] => some (.binary ⟨.ofByte b, bytes⟩)
    | _ => none
  | _ => none

def readTimestamp? (j : Json) : Option Value := do
  match ← body? ["t", "i"] j with
  | [time, increment] => return .timestamp ⟨← word? time, ← word? increment⟩
  | _ => none

/-- The body of `$date`: a written date, milliseconds, or a marked integer of milliseconds. -/
def readDate? (j : Json) : Option Value := do
  let milliseconds ← match j with
    | .string s => Instant.read? s.toList
    | .number (.integer i) => if fits64 i then some i else none
    | .number (.double _ _) => none
    | j => do
      match ← body? ["$numberLong"] j with
      | [i] => long? (← text? i)
      | _ => none
  return .dateTime (Int64.ofInt milliseconds)

def readRegex? (j : Json) : Option Value := do
  match ← body? ["pattern", "options"] j with
  | [pattern, flags] => (Regex.ofParts? (← text? pattern) (← text? flags)).map .regex
  | _ => none

def objectId? (j : Json) : Option ObjectId := do ObjectId.ofHex? (← text? j).toList

def readPointer? (j : Json) : Option Value := do
  match ← body? ["$ref", "$id"] j with
  | [target, id] =>
    match ← body? ["$oid"] id with
    | [hex] => return .dbPointer (← text? target) (← objectId? hex)
    | _ => none
  | _ => none

/-! ### Keys -/

/-- The surrogate keys other than `$code`, each with the reader of its body.  The first key of the
two lists and of `$code` between them that an object has decides what the object spells. -/
def beforeCode : List (String × (Json → Option Value)) :=
  [("$oid", fun j => (objectId? j).map .objectId),
    ("$symbol", fun j => (text? j).map .symbol),
    ("$regularExpression", readRegex?),
    ("$numberInt", readInt?),
    ("$numberLong", readLong?),
    ("$numberDouble", fun j => do (Double.read? (← text? j).toList).map .double),
    ("$numberDecimal", fun j => do (Decimal128.read? (← text? j).toList).map .decimal128),
    ("$binary", readBinary?),
    ("$uuid", fun j => do (Bytes.ofUuid? (← text? j).toList).map fun b => .binary ⟨.uuid, b⟩)]

@[inherit_doc beforeCode]
def afterCode : List (String × (Json → Option Value)) :=
  [("$timestamp", readTimestamp?),
    ("$date", readDate?),
    ("$minKey", fun j => if isOne j then some .minKey else none),
    ("$maxKey", fun j => if isOne j then some .maxKey else none),
    ("$dbPointer", readPointer?),
    ("$undefined", fun j => match j with | .bool true => some .undefined | _ => none)]

/-- The surrogate keys, in the order in which they decide. -/
def keys : List String := beforeCode.map (·.1) ++ "$code" :: afterCode.map (·.1)

def decisive? (present : List String) : Option String := keys.find? (present.contains ·)

/-- The value of a surrogate other than `$code`, which must have no other member. -/
def readSingle? (key : String) (members : List (String × Json)) : Option Value :=
  match members with
  | [(_, body)] => do (← (beforeCode ++ afterCode).lookup key) body
  | _ => none

mutual
def ofJson? : Json → Option Value
  | .null => some .null
  | .bool b => some (.bool b)
  | .number n => some (.ofNumber n)
  | .string s => some (.string s)
  | .array items => (ofItems? items).map .array
  | .object [("$code", .string code)] => some (.javaScript code)
  | .object [("$code", .string code), ("$scope", .null)] => some (.javaScript code)
  | .object [("$scope", .null), ("$code", .string code)] => some (.javaScript code)
  | .object [("$code", .string code), ("$scope", .object scope)] =>
    (ofMembers? scope).map (.javaScriptWithScope code)
  | .object [("$scope", .object scope), ("$code", .string code)] =>
    (ofMembers? scope).map (.javaScriptWithScope code)
  | .object members =>
    match decisive? (members.map (·.1)) with
    | none => (ofMembers? members).map .document
    | some key => readSingle? key members
def ofItems? : List Json → Option (List Value)
  | [] => some []
  | j :: r => do return (← ofJson? j) :: (← ofItems? r)
def ofMembers? : List (String × Json) → Option (List (String × Value))
  | [] => some []
  | (k, j) :: r => do return (k, ← ofJson? j) :: (← ofMembers? r)
end

/-- The value of an object whose members have been read: a document with these very fields, or the
value that its surrogate key announces. -/
def close? (fields : Fields) : Option Value :=
  if fields.any fun (key, _) => keys.contains key then
    match ofJson? (Value.document fields).toJson.collapse with
    | some (.document _) => some (.document fields)
    | decoded => decoded
  else some (.document fields)

end QueryScribe.Surrogate

namespace QueryScribe.Value

def assembly : Json.Assembly Value := ⟨null, bool, ofNumber, string, array, Surrogate.close?⟩

def read (text : List Char) : Except Json.Failure Value := Json.readWith assembly text

def ofText (text : String) : Except Json.Failure Value := read text.toList

end QueryScribe.Value
