/-!
# Field operators

A field of a predicate is tested by operators such as `$gte` or `$in`.  The
table lists the ones that have a builder of their own, with the shape that the
operator's value must have.  An operator that is not in the table has no
builder.
-/

namespace QueryScribe

inductive FieldShape where
  /-- Any value, taken as a literal. -/
  | scalar
  /-- An array, whose elements become arguments. -/
  | list
  /-- A divisor and a remainder. -/
  | modulo
  /-- A pattern, with flags of its own or beside it. -/
  | pattern
  /-- A predicate on the elements of an array. -/
  | elements
  deriving DecidableEq, Repr

structure FieldOperator where
  builder : String
  shape : FieldShape
  deriving DecidableEq, Repr

namespace FieldOperator

def table : List (String × FieldOperator) :=
  [("$eq", ⟨"Eq", .scalar⟩), ("$ne", ⟨"Ne", .scalar⟩), ("$gt", ⟨"Gt", .scalar⟩),
    ("$gte", ⟨"Gte", .scalar⟩), ("$lt", ⟨"Lt", .scalar⟩), ("$lte", ⟨"Lte", .scalar⟩),
    ("$in", ⟨"In", .list⟩), ("$nin", ⟨"Nin", .list⟩), ("$exists", ⟨"Exists", .scalar⟩),
    ("$type", ⟨"Type", .scalar⟩), ("$regex", ⟨"Regex", .pattern⟩), ("$mod", ⟨"Mod", .modulo⟩),
    ("$size", ⟨"Size", .scalar⟩), ("$all", ⟨"All", .list⟩),
    ("$elemMatch", ⟨"ElemMatch", .elements⟩)]

def find? (name : String) : Option FieldOperator := table.lookup name

def names : List String := table.map (·.1)

theorem names_nodup : names.Nodup := by decide

theorem builders_nodup : (table.map (·.2.builder)).Nodup := by decide

end FieldOperator

end QueryScribe
