import QueryScribe.Proofs.Predicate.Refusal

/-!
# Names of fields

A key that is no reserved one stands where a field's name is expected, and the builder
calls for its value have it as their first argument.  Nothing looks at how the name
begins: a misspelt or unknown operator such as `$comment` passes for a field.
`Condition.fieldNames` collects the names from the calls and `fieldKeys` from the
predicate.  `named_iff` says that the two have the same names, whenever there are calls
at all; so a name with a dollar sign gets into the calls just when the rest of the
predicate is in the grammar.
-/

namespace QueryScribe

open QueryScribe.Code QueryScribe.Value QueryScribe.Outcome

/-- The builders whose first argument is the name of a field. -/
def FieldOperator.builders : List String := table.map (·.2.builder)

def fieldName? (builder : String) (args : List Code) : Option String :=
  if builder ∈ FieldOperator.builders then
    match args with
    | .quoted field :: _ => some field
    | _ => none
  else none

namespace Condition

mutual
/-- The names of the fields that the calls of a condition are about. -/
def fieldNames : Condition → List String
  | test builder args => (fieldName? builder args).toList
  | element field body => field :: fieldNames body
  | junction _ parts => partsNames parts
  | anything => []
def partsNames : List Condition → List String
  | [] => []
  | c :: r => fieldNames c ++ partsNames r
end

theorem partsNames_append (cs ds : List Condition) :
    partsNames (cs ++ ds) = partsNames cs ++ partsNames ds := by
  induction cs with
  | nil => rw [partsNames, List.nil_append, List.nil_append]
  | cons c r ih => rw [List.cons_append, partsNames, partsNames, ih, List.append_assoc]

/-- Some conditions together are about their fields. -/
theorem together_fieldNames (cs : List Condition) :
    fieldNames (together cs) = partsNames cs := by
  match cs with
  | [] => rw [together, fieldNames, partsNames]
  | [c] => rw [together, partsNames, partsNames, List.append_nil]
  | c :: d :: r =>
    rw [together, fieldNames]
    · simp
    · simp

end Condition

namespace Predicate

def isOperatorName (name : String) : Bool := name.toList.head? = some '$'

mutual
/-- The keys of a predicate that stand where the name of a field is expected. -/
def fieldKeys : List (String × Value) → List String
  | [] => []
  | (key, value) :: r => pairKeys key value ++ fieldKeys r
/-- The keys of a pair that stand where the name of a field is expected. -/
def pairKeys (key : String) (value : Value) : List String :=
  if key ∈ logicalKeys then
    match value with
    | .array items => documentsKeys items
    | _ => []
  else if key ∈ reservedKeys then []
  else
    match value with
    | .document operators =>
      key :: if Fields.isOperators operators then operatorsKeys operators else []
    | _ => [key]
/-- The keys of a logical operator's documents that stand where the name of a field is expected. -/
def documentsKeys : List Value → List String
  | [] => []
  | .document inner :: r => fieldKeys inner ++ documentsKeys r
  | _ :: r => documentsKeys r
def operatorsKeys : List (String × Value) → List String
  | [] => []
  | (operator, value) :: r =>
    (match value with
      | .document inner =>
        if operator = "$elemMatch" ∧ Fields.isOperators inner = false then fieldKeys inner else []
      | _ => []) ++ operatorsKeys r
end

/-! ### Single pairs and operators -/

theorem pairKeys_of_logical {key : String} {items : List Value} (hk : key ∈ logicalKeys) :
    pairKeys key (.array items) = documentsKeys items := by
  unfold pairKeys
  rw [if_pos hk]

theorem pairKeys_of_operators {key : String} {value : Value} {operators : Fields}
    (hk : key ∉ logicalKeys) (ho : operators? key value = some operators) :
    pairKeys key value = key :: operatorsKeys operators := by
  obtain rfl := eq_document_of_operators ho
  obtain ⟨⟨hw, hp⟩, _⟩ := Option.ite_none_right_eq_some.1 ho
  have hr : key ∉ reservedKeys := by
    rw [mem_reservedKeys, hw]
    simp [hk]
  unfold pairKeys
  rw [if_neg hk, if_neg hr]
  dsimp only
  rw [if_pos hp]

theorem pairKeys_of_plain {key : String} {value : Value}
    (hk : key ∉ logicalKeys) (ho : operators? key value = none) :
    pairKeys key value = if isWhole key then [] else [key] := by
  unfold pairKeys
  rw [if_neg hk]
  cases hw : isWhole key with
  | true => rw [if_pos (mem_reservedKeys.2 (.inr hw)), if_pos rfl]
  | false =>
    have hr : key ∉ reservedKeys := by
      rw [mem_reservedKeys, hw]
      simp [hk]
    rw [if_neg hr, if_neg (by decide)]
    cases value with
    | document operators =>
      have hp : ¬ Fields.isOperators operators = true := by
        intro hp
        exact absurd ho (by rw [operators?, if_pos ⟨hw, hp⟩]; nofun)
      dsimp only
      rw [if_neg hp]
    | _ => rfl

/-- The keys inside an operator are those of the predicate that it puts on elements. -/
theorem operatorsKeys_cons (operator : String) (value : Value) (r : Fields) :
    operatorsKeys ((operator, value) :: r)
      = ((body? operator value).map fieldKeys).getD [] ++ operatorsKeys r := by
  rw [operatorsKeys.eq_def]
  dsimp only
  congr 1
  cases value with
  | document inner =>
    rw [body_eq]
    by_cases h : operator = "$elemMatch" ∧ Fields.isOperators inner = false
    · simp [h]
    · simp [h]
  | _ => rfl

theorem fieldNames_fieldTest {builder : String} (hb : builder ∈ FieldOperator.builders)
    (field : String) (args : List Code) :
    (fieldTest builder field args).fieldNames = [field] := by
  rw [fieldTest, Condition.fieldNames, fieldName?, if_pos hb]
  rfl

/-- The test of a pair is about its key, if that is no operator on the whole document. -/
theorem fieldNames_of_plainPair {key : String} {value : Value} {c : Condition}
    (h : plainPair key value = .ok c) : c.fieldNames = if isWhole key then [] else [key] := by
  have apart : ∀ builder ∈ ["Expr", "Where", "JsonSchema"], builder ∉ FieldOperator.builders := by
    decide
  obtain ⟨hw, builder, hb, args, rfl⟩ | ⟨hw, rfl⟩ := plainPair_cases h
  · rw [hw, if_pos rfl, Condition.fieldNames]
    unfold fieldName?
    rw [if_neg (apart builder hb)]
    rfl
  · rw [hw, if_neg (by decide), fieldNames_fieldTest (by decide)]

theorem fieldNames_of_operatorTest {field operator : String} {given : Option String}
    {value : Value} {c : Condition} (h : operatorTest false field operator given value = .ok c) :
    c.fieldNames = [field] := by
  obtain ⟨spec, args, hspec, rfl⟩ | ⟨hf, _⟩ := operatorTest_cases h
  · exact fieldNames_fieldTest (List.mem_map.2 ⟨_, mem_of_lookup hspec, rfl⟩) field args
  · exact absurd hf nofun

/-! ### The translation -/

/-- What it is for a place to have the names that its conditions are about. -/
def Named : Place → List Condition → Prop
  | .pairs fields, cs => ∀ name, name ∈ Condition.partsNames cs ↔ name ∈ fieldKeys fields
  | .documents items, cs => ∀ name, name ∈ Condition.partsNames cs ↔ name ∈ documentsKeys items
  | .operators field _ beside ops, cs => ∀ name, name ∈ Condition.partsNames cs
      ↔ (name = field ∧ ∃ o ∈ ops, ¬ (o.1 = "$options" ∧ beside = true))
        ∨ name ∈ operatorsKeys ops

/-- **Every place has the names that its conditions are about**, by induction over the
derivation. -/
theorem Derives.named {place : Place} {cs : List Condition} (h : Derives false place cs) :
    Named place cs := by
  induction h with
  | noPairs => simp [Named, Condition.partsNames, fieldKeys]
  | @logical key connective items r parts cs hk _ _ ihd ihr =>
    intro name
    have hl : key ∈ logicalKeys := (ofKey?_isSome key).1 (by rw [hk]; rfl)
    rw [Condition.partsNames, Condition.fieldNames, fieldKeys, pairKeys_of_logical hl,
      List.mem_append, List.mem_append, ihd name, ihr name]
  | @field key value operators r given parts cs hk ho _ _ _ ihd ihr =>
    intro name
    obtain ⟨⟨_, hp⟩, _⟩ := Option.ite_none_right_eq_some.1
      (eq_document_of_operators ho ▸ ho : operators? key (.document operators) = some operators)
    rw [Condition.partsNames_append, fieldKeys, pairKeys_of_operators (ofKey?_eq_none.1 hk) ho,
      List.mem_append, List.mem_append, ihd name, ihr name, List.mem_cons,
      and_iff_left (exists_operator hp)]
  | @plain key value r c cs hk ho hp _ ihr =>
    intro name
    rw [Condition.partsNames, fieldKeys, pairKeys_of_plain (ofKey?_eq_none.1 hk) ho,
      fieldNames_of_plainPair hp, List.mem_append, List.mem_append, ihr name]
  | noDocuments => simp [Named, Condition.partsNames, documentsKeys]
  | document _ _ ihd ihr =>
    intro name
    rw [Condition.partsNames, Condition.together_fieldNames, documentsKeys, List.mem_append,
      List.mem_append, ihd name, ihr name]
  | noOperators => simp [Named, Condition.partsNames, operatorsKeys]
  | @flags field given value r cs _ ih =>
    intro name
    have hb : body? "$options" value = none := body_of_ne (by decide) value
    rw [ih name, operatorsKeys_cons, hb]
    simp
  | @body field operator given beside value inner r parts cs hn hb _ _ ihb ihr =>
    intro name
    have here : ∃ o ∈ (operator, value) :: r, ¬ (o.1 = "$options" ∧ beside = true) :=
      ⟨_, List.mem_cons_self, hn⟩
    rw [Condition.partsNames, Condition.fieldNames, Condition.together_fieldNames,
      operatorsKeys_cons, hb, List.mem_append, List.mem_cons, ihb name, ihr name, and_iff_left here,
      List.mem_append, Option.map_some, Option.getD_some]
    by_cases hf : name = field
    · simp [hf]
    · simp [hf]
  | @operator field operator given beside value r c cs hn hb ht _ ihr =>
    intro name
    have here : ∃ o ∈ (operator, value) :: r, ¬ (o.1 = "$options" ∧ beside = true) :=
      ⟨_, List.mem_cons_self, hn⟩
    rw [Condition.partsNames, fieldNames_of_operatorTest ht, operatorsKeys_cons, hb, List.mem_append,
      List.mem_singleton, ihr name, and_iff_left here, Option.map_none, Option.getD_none,
      List.nil_append]
    by_cases hf : name = field
    · simp [hf]
    · simp [hf]

/-- **The fields of the calls are the keys where fields are expected**, whatever the names are. -/
theorem named_iff (fields : Fields) (name : String) :
    (∃ c, condition false fields = .ok c ∧ name ∈ c.fieldNames)
      ↔ Accepted fields ∧ name ∈ fieldKeys fields := by
  rw [← conditions_ok_iff]
  constructor
  · rintro ⟨c, hc, hn⟩
    obtain ⟨cs, hcs, rfl⟩ := map_eq_ok.1 hc
    have hd : Derives false (.pairs fields) cs := derives_of_conditions hcs
    rw [Condition.together_fieldNames] at hn
    exact ⟨⟨cs, hcs⟩, (hd.named name).1 hn⟩
  · rintro ⟨⟨cs, hcs⟩, hn⟩
    have hd : Derives false (.pairs fields) cs := derives_of_conditions hcs
    refine ⟨_, map_eq_ok.2 ⟨cs, hcs, rfl⟩, ?_⟩
    rw [Condition.together_fieldNames]
    exact (hd.named name).2 hn

/-- **A predicate with a name like an operator's where a field is expected is not refused for it.**
The calls have such names just when the predicate is in the grammar and has such keys. -/
theorem operator_names_iff (fields : Fields) :
    (∃ c, condition false fields = .ok c ∧ ∃ name ∈ c.fieldNames, isOperatorName name = true)
      ↔ Accepted fields ∧ ∃ key ∈ fieldKeys fields, isOperatorName key = true := by
  constructor
  · rintro ⟨c, hc, name, hn, hd⟩
    obtain ⟨ha, hk⟩ := (named_iff fields name).1 ⟨c, hc, hn⟩
    exact ⟨ha, name, hk, hd⟩
  · rintro ⟨ha, key, hk, hd⟩
    obtain ⟨c, hc, hn⟩ := (named_iff fields key).2 ⟨ha, hk⟩
    exact ⟨c, hc, key, hn, hd⟩

/-- A comment becomes the equality of a field. -/
theorem operator_names_comment :
    condition false [("$comment", .string "slow")]
        = .ok (.test "Eq" [.quoted "$comment", .quoted "slow"])
      ∧ "$comment" ∈ fieldKeys [("$comment", .string "slow")]
      ∧ "$comment" ∉ reservedKeys
      ∧ "$comment" ∈ (Condition.test "Eq" [.quoted "$comment", .quoted "slow"]).fieldNames :=
  ⟨rfl, by decide, by decide, by decide⟩

end Predicate

end QueryScribe
