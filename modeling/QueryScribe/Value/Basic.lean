import QueryScribe.Bytes
import QueryScribe.Decimal128
import QueryScribe.Double.Basic
import QueryScribe.Word

/-!
# Values

A query is a tree of values of the database's own kinds, which are more than
JSON has.  A document keeps its fields in order, repeated keys included, since
generated code lists them so.  `kind` names a value's kind as messages do, and
`same` compares two values: the two zeros are the same number, and a NaN is the
same as itself.
-/

namespace QueryScribe

/-- A regular expression: a pattern and flags, neither of which holds a NUL.  The flags may stand in
any order; reading puts them into the order of their code points. -/
structure Regex where
  pattern : String
  flags : String
  noNul : '\x00' ∉ pattern.toList ∧ '\x00' ∉ flags.toList
  deriving DecidableEq

namespace Regex

def sortFlags (flags : String) : List Char := flags.toList.mergeSort fun a b => decide (a ≤ b)

theorem sortFlags_sorted (flags : String) : (sortFlags flags).Pairwise (· ≤ ·) := by
  have h := @List.pairwise_mergeSort Char (fun a b => decide (a ≤ b))
    (fun a b c h₁ h₂ => by
      simp only [decide_eq_true_eq] at *; exact Char.le_trans h₁ h₂)
    (fun a b => by
      simp only [Bool.or_eq_true, decide_eq_true_eq]; exact Char.le_total a b) flags.toList
  exact h.imp fun h => by simpa using h

def ofParts? (pattern flags : String) : Option Regex :=
  let sorted := String.ofList (sortFlags flags)
  if h : '\x00' ∉ pattern.toList ∧ '\x00' ∉ sorted.toList then
    some ⟨pattern, sorted, h⟩
  else none

end Regex

/-- How bytes are meant.  Ten subtypes have names.  The other two hold a byte, which need not be one
that they are for: it may also be the byte of a name. -/
inductive BinarySubtype where
  | generic
  | function
  | binaryOld
  | uuidOld
  | uuid
  | md5
  | encrypted
  | column
  | sensitive
  | vector
  | userDefined (b : UInt8)
  | reserved (b : UInt8)
  deriving DecidableEq

namespace BinarySubtype

def toByte : BinarySubtype → UInt8
  | generic => 0
  | function => 1
  | binaryOld => 2
  | uuidOld => 3
  | uuid => 4
  | md5 => 5
  | encrypted => 6
  | column => 7
  | sensitive => 8
  | vector => 9
  | userDefined b | reserved b => b

/-- The subtype of a byte: the one with a name if there is one, else reserved below `0x80`. -/
def ofByte (b : UInt8) : BinarySubtype :=
  match b with
  | 0 => generic
  | 1 => function
  | 2 => binaryOld
  | 3 => uuidOld
  | 4 => uuid
  | 5 => md5
  | 6 => encrypted
  | 7 => column
  | 8 => sensitive
  | 9 => vector
  | b => if b < 0x80 then reserved b else userDefined b

@[simp] theorem toByte_ofByte (b : UInt8) : (ofByte b).toByte = b := by
  unfold ofByte
  split
  all_goals
    first
    | rfl
    | split <;> rfl

end BinarySubtype

structure Binary where
  subtype : BinarySubtype
  bytes : List UInt8
  deriving DecidableEq

/-- A second and a count within it. -/
structure Timestamp where
  time : UInt32
  increment : UInt32
  deriving DecidableEq

inductive Value where
  | null
  | bool (b : Bool)
  | int32 (i : Int32)
  | int64 (i : Int64)
  | double (d : Double)
  | string (s : String)
  | array (items : List Value)
  | document (fields : List (String × Value))
  | objectId (id : ObjectId)
  | regex (r : Regex)
  /-- Milliseconds since the start of 1970. -/
  | dateTime (milliseconds : Int64)
  | decimal128 (d : Decimal128)
  | binary (b : Binary)
  | timestamp (t : Timestamp)
  | symbol (s : String)
  | javaScript (code : String)
  | javaScriptWithScope (code : String) (scope : List (String × Value))
  | dbPointer (target : String) (id : ObjectId)
  | minKey
  | maxKey
  | undefined

/-- The fields of a document, or the bindings of a scope. -/
abbrev Fields := List (String × Value)

namespace Fields

def get? (fields : Fields) (key : String) : Option Value := fields.lookup key

/-- A document of operators: it is not empty, and every key begins with a dollar sign. -/
def isOperators (fields : Fields) : Bool :=
  !fields.isEmpty && fields.all fun (key, _) => key.toList.head? = some '$'

end Fields

namespace Value

def kind : Value → String
  | null => "null"
  | bool _ => "bool"
  | int32 _ => "int"
  | int64 _ => "long"
  | double _ => "double"
  | string _ => "string"
  | array _ => "array"
  | document _ => "object"
  | objectId _ => "objectId"
  | regex _ => "regex"
  | dateTime _ => "date"
  | decimal128 _ => "decimal"
  | binary _ => "binData"
  | timestamp _ => "timestamp"
  | symbol _ => "symbol"
  | javaScript _ => "javascript"
  | javaScriptWithScope _ _ => "javascriptWithScope"
  | dbPointer _ _ => "dbPointer"
  | minKey => "minKey"
  | maxKey => "maxKey"
  | undefined => "undefined"

/-- The integer of an integer or a finite double; a double loses its fraction and is moved into
range. -/
def toInteger? : Value → Option Int
  | int32 i => some i.toInt
  | int64 i => some i.toInt
  | double d => d.truncate?.map clamp64
  | _ => none

def toString? : Value → Option String
  | string s => some s
  | _ => none

/-- The first field with a key, if the value is a document that has one. -/
def get? (v : Value) (key : String) : Option Value :=
  match v with
  | document fields => fields.lookup key
  | _ => none

/-- An integer of 64 bits, in 32 bits if it fits. -/
def ofInteger (i : Int) : Value :=
  if fits32 i then int32 (Int32.ofInt i) else int64 (Int64.ofInt i)

mutual
/-- The same value, numbers compared as numbers. -/
def same : Value → Value → Bool
  | null, null => true
  | bool a, bool b => a = b
  | int32 a, int32 b => a = b
  | int64 a, int64 b => a = b
  | double a, double b => a.same b
  | string a, string b => a = b
  | array a, array b => sameItems a b
  | document a, document b => sameFields a b
  | objectId a, objectId b => a = b
  | regex a, regex b => a = b
  | dateTime a, dateTime b => a = b
  | decimal128 a, decimal128 b => a = b
  | binary a, binary b => a = b
  | timestamp a, timestamp b => a = b
  | symbol a, symbol b => a = b
  | javaScript a, javaScript b => a = b
  | javaScriptWithScope a s, javaScriptWithScope b t => a = b && sameFields s t
  | dbPointer a i, dbPointer b j => a = b && i = j
  | minKey, minKey => true
  | maxKey, maxKey => true
  | undefined, undefined => true
  | _, _ => false
def sameItems : List Value → List Value → Bool
  | [], [] => true
  | a :: r, b :: s => same a b && sameItems r s
  | _, _ => false
def sameFields : List (String × Value) → List (String × Value) → Bool
  | [], [] => true
  | (k, a) :: r, (l, b) :: s => k = l && same a b && sameFields r s
  | _, _ => false
end

/-! ### Induction over sizes

What is known of a value may rest on values several levels inside it, such as the elements of an
array that is the argument of an operator. -/

/-- A statement holds of every value if it holds of a value whenever it holds of all smaller
ones. -/
theorem induction_on_size {P : Value → Prop}
    (step : ∀ v, (∀ u, sizeOf u < sizeOf v → P u) → P v) (v : Value) : P v := by
  generalize hn : sizeOf v = n
  induction n using Nat.strongRecOn generalizing v with
  | ind n ih =>
    subst hn
    exact step v fun u hu => ih (sizeOf u) hu u rfl

theorem sizeOf_field {fields : List (String × Value)} {key : String} {v : Value}
    (h : (key, v) ∈ fields) : sizeOf v < sizeOf fields := by
  have := List.sizeOf_lt_of_mem h
  simp only [Prod.mk.sizeOf_spec] at this
  omega

theorem sizeOf_lt_document {fields : List (String × Value)} {key : String} {v : Value}
    (h : (key, v) ∈ fields) : sizeOf v < sizeOf (document fields) := by
  have := sizeOf_field h
  simp only [document.sizeOf_spec]
  omega

end Value

end QueryScribe
