import QueryScribe.Proofs.Decimal128.RoundTrip
import QueryScribe.Proofs.Json.Reading
import QueryScribe.Value.Encoding

/-!
# What a text keeps of a value

A text keeps all of a value but the sign and the signalling bit of a decimal NaN.
`Value.quiet` is the value without the two, at any depth, so a value and its quiet
form have the same text (`toJson_quiet`).  All integers in the tree of a value are
such as the reader of JSON keeps as integers: `bounded_toJson`.
-/

namespace QueryScribe.Value

open QueryScribe.Json QueryScribe.Text

mutual
/-- A value in which no decimal NaN has a sign or a signalling bit. -/
def quiet : Value → Value
  | array items => array (quietItems items)
  | document fields => document (quietFields fields)
  | decimal128 d => decimal128 d.quiet
  | javaScriptWithScope code scope => javaScriptWithScope code (quietFields scope)
  | v => v
def quietItems : List Value → List Value
  | [] => []
  | v :: r => quiet v :: quietItems r
def quietFields : List (String × Value) → List (String × Value)
  | [] => []
  | (k, v) :: r => (k, quiet v) :: quietFields r
end

theorem quietItems_eq_map (items : List Value) : quietItems items = items.map quiet := by
  induction items with
  | nil => rfl
  | cons v r ih => rw [quietItems, ih, List.map_cons]

theorem quietFields_eq_map (fields : List (String × Value)) :
    quietFields fields = fields.map fun f => (f.1, f.2.quiet) := by
  induction fields with
  | nil => rfl
  | cons f r ih => rw [quietFields, ih, List.map_cons]

theorem itemsToJson_eq_map (items : List Value) : itemsToJson items = items.map toJson := by
  induction items with
  | nil => rfl
  | cons v r ih => rw [itemsToJson, ih, List.map_cons]

theorem fieldsToJson_eq_map (fields : List (String × Value)) :
    fieldsToJson fields = fields.map fun f => (f.1, f.2.toJson) := by
  induction fields with
  | nil => rfl
  | cons f r ih => rw [fieldsToJson, ih, List.map_cons]

mutual
/-- **A value and its quiet form have the same tree.** -/
@[simp] theorem toJson_quiet : ∀ v : Value, v.quiet.toJson = v.toJson
  | array items => by rw [quiet, toJson, toJson, itemsToJson_quiet items]
  | document fields => by rw [quiet, toJson, toJson, fieldsToJson_quiet fields]
  | javaScriptWithScope code scope => by rw [quiet, toJson, toJson, fieldsToJson_quiet scope]
  | decimal128 d => by rw [quiet, toJson, toJson, Decimal128.write_quiet]
  | null | bool _ | int32 _ | int64 _ | double _ | string _ | objectId _ | regex _ | dateTime _
  | binary _ | timestamp _ | symbol _ | javaScript _ | dbPointer _ _ | minKey | maxKey
  | undefined => rfl
theorem itemsToJson_quiet : ∀ items : List Value, itemsToJson (quietItems items) = itemsToJson items
  | [] => rfl
  | v :: r => by rw [quietItems, itemsToJson, itemsToJson, toJson_quiet v, itemsToJson_quiet r]
theorem fieldsToJson_quiet : ∀ fields : List (String × Value),
    fieldsToJson (quietFields fields) = fieldsToJson fields
  | [] => rfl
  | (k, v) :: r => by
    rw [quietFields, fieldsToJson, fieldsToJson, toJson_quiet v, fieldsToJson_quiet r]
end

mutual
@[simp] theorem quiet_quiet : ∀ v : Value, v.quiet.quiet = v.quiet
  | array items => by rw [quiet, quiet, quietItems_quiet items]
  | document fields => by rw [quiet, quiet, quietFields_quiet fields]
  | javaScriptWithScope code scope => by rw [quiet, quiet, quietFields_quiet scope]
  | decimal128 d => by rw [quiet, quiet, Decimal128.quiet_quiet]
  | null | bool _ | int32 _ | int64 _ | double _ | string _ | objectId _ | regex _ | dateTime _
  | binary _ | timestamp _ | symbol _ | javaScript _ | dbPointer _ _ | minKey | maxKey
  | undefined => rfl
theorem quietItems_quiet : ∀ items : List Value, quietItems (quietItems items) = quietItems items
  | [] => rfl
  | v :: r => by rw [quietItems, quietItems, quiet_quiet v, quietItems_quiet r]
theorem quietFields_quiet : ∀ fields : List (String × Value),
    quietFields (quietFields fields) = quietFields fields
  | [] => rfl
  | (k, v) :: r => by rw [quietFields, quietFields, quiet_quiet v, quietFields_quiet r]
end

theorem toText_quiet (v : Value) : v.quiet.toText = v.toText := by
  rw [toText, toText, compact, compact, toJson_quiet]

theorem toPrettyText_quiet (v : Value) : v.quiet.toPrettyText = v.toPrettyText := by
  rw [toPrettyText, toPrettyText, pretty, pretty, toJson_quiet]

/-! ### Integers in trees -/

theorem inBounds_of_fits64 {i : Int} (h : fits64 i = true) : InBounds (.integer i) := by
  simp only [fits64, Bool.and_eq_true, decide_eq_true_eq] at h
  exact ⟨by omega, by omega⟩

theorem fits64_of_fits32 {i : Int} (h : fits32 i = true) : fits64 i = true := by
  simp only [fits32, fits64, Bool.and_eq_true, decide_eq_true_eq] at h ⊢
  omega

theorem fits64_word (n : UInt32) : fits64 n.toNat = true := by
  have hlt := n.toNat_lt
  simp only [fits64, Bool.and_eq_true, decide_eq_true_eq]
  omega

mutual
/-- **The integers in the tree of a value are read as integers.** -/
theorem bounded_toJson : ∀ v : Value, Bounded v.toJson
  | array items => by
    rw [toJson, Bounded]
    exact bounded_items items
  | document fields => by
    rw [toJson, Bounded]
    exact bounded_fields fields
  | javaScriptWithScope code scope => by
    simp only [toJson, Bounded, BoundedMembers, and_true, true_and]
    exact bounded_fields scope
  | int32 i => inBounds_of_fits64 (fits64_of_fits32 (fits32_toInt i))
  | int64 i => by
    rw [toJson]
    split
    · exact ⟨trivial, trivial⟩
    · exact inBounds_of_fits64 (fits64_toInt i)
  | double d => by cases d <;> simp [toJson, ofDouble, Bounded, BoundedMembers, single, InBounds]
  | timestamp t =>
    ⟨⟨inBounds_of_fits64 (fits64_word _), inBounds_of_fits64 (fits64_word _), trivial⟩, trivial⟩
  | dbPointer _ _ => by simp [toJson, ofObjectId, Bounded, BoundedMembers, single, ofChars]
  | regex _ | binary _ => ⟨⟨trivial, trivial, trivial⟩, trivial⟩
  | dateTime _ => ⟨⟨trivial, trivial⟩, trivial⟩
  | minKey | maxKey => ⟨inBounds_of_fits64 (by decide), trivial⟩
  | objectId _ | decimal128 _ | symbol _ | javaScript _ | undefined => ⟨trivial, trivial⟩
  | null | bool _ | string _ => trivial
theorem bounded_items : ∀ items : List Value, BoundedItems (itemsToJson items)
  | [] => trivial
  | v :: r => ⟨bounded_toJson v, bounded_items r⟩
theorem bounded_fields : ∀ fields : List (String × Value), BoundedMembers (fieldsToJson fields)
  | [] => trivial
  | (_, v) :: r => ⟨bounded_toJson v, bounded_fields r⟩
end

end QueryScribe.Value
