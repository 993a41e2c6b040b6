import QueryScribe.Proofs.Predicate.Truth

/-!
# The grammar of predicates

Without the fallback to raw conditions some predicates are refused.  `Accepted` is the
grammar of the others, said without the translation: which value a logical operator, a
`$where` and each operator of a field takes.  Two places end the recursion: the argument of
`$expr`, and an `$elemMatch` whose value is itself a document of operators.

`violations` lists everything in a predicate that breaks the grammar, in the order in which
a reader meets it.  A broken rule hides nothing after it, so the list has no early end.
`accepted_iff` says that the list is empty just for the predicates of the grammar.
-/

namespace QueryScribe.Predicate

open QueryScribe.Code QueryScribe.Value QueryScribe.Outcome

/-! ### Keys and operators -/

def logicalKeys : List String := ["$and", "$or", "$nor"]

/-- The keys that are no field names. -/
def reservedKeys : List String := logicalKeys ++ ["$expr", "$where", "$jsonSchema"]

theorem mem_reservedKeys {key : String} :
    key ∈ reservedKeys ↔ key ∈ logicalKeys ∨ isWhole key = true := by
  simp [reservedKeys, isWhole, or_assoc]

def scalarNames : List String :=
  ["$eq", "$ne", "$gt", "$gte", "$lt", "$lte", "$exists", "$type", "$size"]

def listNames : List String := ["$in", "$nin", "$all"]

/-- An integer or a finite double. -/
def isNumber : Value → Bool
  | .int32 _ | .int64 _ | .double (.finite _ _) => true
  | _ => false

def isCode : Value → Bool
  | .string _ | .javaScript _ => true
  | _ => false

/-! ### The grammar -/

mutual
/-- The predicates of the grammar: each pair is a pair of it. -/
inductive Accepted : Fields → Prop
  | intro {fields : Fields} :
      (∀ key value, (key, value) ∈ fields → AcceptedPair key value) → Accepted fields
inductive AcceptedPair : String → Value → Prop
  | logical {key : String} {items : List Value} : key ∈ logicalKeys →
      (∀ item ∈ items, AcceptedDocument item) → AcceptedPair key (.array items)
  | code {value : Value} : isCode value = true → AcceptedPair "$where" value
  | whole {key : String} (value : Value) :
      key = "$expr" ∨ key = "$jsonSchema" → AcceptedPair key value
  | equality {key : String} {value : Value} : key ∉ reservedKeys →
      (∀ operators, value = .document operators → Fields.isOperators operators = false) →
      AcceptedPair key value
  | operators {key : String} {operators : Fields} : key ∉ reservedKeys →
      Fields.isOperators operators = true →
      (∀ flags, operators.get? "$options" = some flags → ∃ s, flags = .string s) →
      (∀ operator value, (operator, value) ∈ operators →
        ¬ (operator = "$options" ∧ hasPattern operators = true) → Takes operator value) →
      AcceptedPair key (.document operators)
inductive AcceptedDocument : Value → Prop
  | intro {fields : Fields} : Accepted fields → AcceptedDocument (.document fields)
/-- The operators of a field, each with the values that it takes. -/
inductive Takes : String → Value → Prop
  | scalar {operator : String} (value : Value) : operator ∈ scalarNames → Takes operator value
  | list {operator : String} (items : List Value) :
      operator ∈ listNames → Takes operator (.array items)
  | modulo {divisor remainder : Value} : isNumber divisor = true → isNumber remainder = true →
      Takes "$mod" (.array [divisor, remainder])
  | text (s : String) : Takes "$regex" (.string s)
  | pattern (r : Regex) : Takes "$regex" (.regex r)
  | elementOperators {operators : Fields} :
      Fields.isOperators operators = true → Takes "$elemMatch" (.document operators)
  | elementPredicate {fields : Fields} :
      Accepted fields → Takes "$elemMatch" (.document fields)
end

/-! ### Violations -/

def whereViolations (value : Value) : List BuilderError :=
  if isCode value then [] else [.fault (.whereNotString value.kind)]

/-- What is wrong with the flags among the operators of a field. -/
def flagsViolations (field : String) (operators : Fields) : List BuilderError :=
  match operators.get? "$options" with
  | none | some (.string _) => []
  | some v => [.fault (.optionsNotString field v.kind)]

def listViolations (field operator : String) : Value → List BuilderError
  | .array _ => []
  | v => [.fault (.listNotArray operator field v.kind)]

def moduloViolations (field : String) : Value → List BuilderError
  | .array [divisor, remainder] =>
    if isNumber divisor && isNumber remainder then [] else [.fault (.modNotNumbers field)]
  | _ => [.fault (.modNotPair field)]

def patternViolations (field : String) : Value → List BuilderError
  | .string _ | .regex _ => []
  | v => [.fault (.regexNotPattern field v.kind)]

/-- What is wrong with an operator of a field that has no predicate inside. -/
def leafViolations (field operator : String) (value : Value) : List BuilderError :=
  if operator ∈ scalarNames then []
  else if operator ∈ listNames then listViolations field operator value
  else if operator = "$mod" then moduloViolations field value
  else if operator = "$regex" then patternViolations field value
  else [.unsupported operator]

mutual
/-- What is wrong with a predicate, in the order of its text. -/
def violations : List (String × Value) → List BuilderError
  | [] => []
  | (key, value) :: r => pairViolations key value ++ violations r
def pairViolations (key : String) (value : Value) : List BuilderError :=
  if key ∈ logicalKeys then
    match value with
    | .array items => documentsViolations items
    | v => [.fault (.logicalNotArray key v.kind)]
  else if key = "$where" then whereViolations value
  else if key ∈ reservedKeys then []
  else
    match value with
    | .document operators =>
      if Fields.isOperators operators then
        flagsViolations key operators
          ++ operatorsViolations key (hasPattern operators) operators
      else []
    | _ => []
def documentsViolations : List Value → List BuilderError
  | [] => []
  | .document inner :: r => violations inner ++ documentsViolations r
  | v :: r => .fault (.logicalElement v.kind) :: documentsViolations r
/-- What is wrong with the operators of a field; flags beside a pattern have had their turn. -/
def operatorsViolations (field : String) (beside : Bool) :
    List (String × Value) → List BuilderError
  | [] => []
  | (operator, value) :: r =>
    (if operator = "$options" ∧ beside = true then [] else operatorViolations field operator value)
      ++ operatorsViolations field beside r
def operatorViolations (field operator : String) (value : Value) : List BuilderError :=
  if operator = "$elemMatch" then
    match value with
    | .document inner => if Fields.isOperators inner then [] else violations inner
    | v => [.fault (.elementsNotDocument field v.kind)]
  else leafViolations field operator value
end

/-! ### Predicates without violations -/

theorem violations_eq_flatMap (fields : Fields) :
    violations fields = fields.flatMap fun (key, value) => pairViolations key value := by
  induction fields with
  | nil => rw [violations, List.flatMap_nil]
  | cons f r ih => rw [violations, ih, List.flatMap_cons]

theorem violations_eq_nil {fields : Fields} :
    violations fields = [] ↔ ∀ key value, (key, value) ∈ fields → pairViolations key value = [] := by
  rw [violations_eq_flatMap, List.flatMap_eq_nil_iff, Prod.forall]

theorem operatorsViolations_eq_flatMap (field : String) (beside : Bool) (operators : Fields) :
    operatorsViolations field beside operators = operators.flatMap fun (operator, value) =>
      if operator = "$options" ∧ beside = true then [] else operatorViolations field operator value := by
  induction operators with
  | nil => rw [operatorsViolations, List.flatMap_nil]
  | cons o r ih => rw [operatorsViolations, ih, List.flatMap_cons]

theorem operatorsViolations_eq_nil {field : String} {beside : Bool} {operators : Fields} :
    operatorsViolations field beside operators = []
      ↔ ∀ operator value, (operator, value) ∈ operators →
        ¬ (operator = "$options" ∧ beside = true) → operatorViolations field operator value = [] := by
  rw [operatorsViolations_eq_flatMap, List.flatMap_eq_nil_iff, Prod.forall]
  simp only [ite_eq_left_iff]

theorem documentsViolations_eq_nil {items : List Value} :
    documentsViolations items = []
      ↔ ∀ item ∈ items, ∃ inner, item = .document inner ∧ violations inner = [] := by
  induction items with
  | nil => simp [documentsViolations]
  | cons v r ih =>
    rw [List.forall_mem_cons, ← ih]
    cases v with
    | document inner => simp [documentsViolations]
    | _ => simp [documentsViolations]

theorem flagsViolations_eq_nil {field : String} {operators : Fields} :
    flagsViolations field operators = []
      ↔ ∀ flags, operators.get? "$options" = some flags → ∃ s, flags = .string s := by
  unfold flagsViolations
  cases operators.get? "$options" with
  | none => simp
  | some v => cases v <;> simp

theorem listViolations_eq_nil {field operator : String} {value : Value} :
    listViolations field operator value = [] ↔ ∃ items, value = .array items := by
  cases value <;> simp [listViolations]

theorem moduloViolations_eq_nil {field : String} {value : Value} :
    moduloViolations field value = [] ↔ ∃ divisor remainder, value = .array [divisor, remainder]
      ∧ isNumber divisor = true ∧ isNumber remainder = true := by
  by_cases h : ∃ divisor remainder, value = .array [divisor, remainder]
  · obtain ⟨divisor, remainder, rfl⟩ := h
    simp only [moduloViolations, Value.array.injEq, List.cons.injEq, and_true]
    constructor
    · intro h
      exact ⟨divisor, remainder, ⟨rfl, rfl⟩, by simpa using h⟩
    · rintro ⟨d, r, ⟨rfl, rfl⟩, hd, hr⟩
      simp [hd, hr]
  · have hne : ∀ divisor remainder, value = .array [divisor, remainder] → False :=
      fun divisor remainder e => h ⟨divisor, remainder, e⟩
    rw [moduloViolations.eq_2 field value hne]
    constructor
    · exact nofun
    · rintro ⟨divisor, remainder, e, -⟩
      exact absurd e (hne divisor remainder)

theorem patternViolations_eq_nil {field : String} {value : Value} :
    patternViolations field value = [] ↔ (∃ s, value = .string s) ∨ ∃ r, value = .regex r := by
  cases value <;> simp [patternViolations]

/-! ### The grammar and the violations -/

/-- The predicates below some size are in the grammar when nothing is wrong with them. -/
def GrammarBelow (size : Nat) : Prop :=
  ∀ inner : Fields, sizeOf inner < size → (Accepted inner ↔ violations inner = [])

section Below

variable {key operator : String} {value : Value} {operators inner : Fields} {items : List Value}

theorem GrammarBelow.element (ih : GrammarBelow (sizeOf (Value.array items)))
    (h : .document inner ∈ items) : Accepted inner ↔ violations inner = [] := by
  refine ih inner ?_
  have := List.sizeOf_lt_of_mem h
  rw [Value.document.sizeOf_spec] at this
  rw [Value.array.sizeOf_spec]
  omega

theorem GrammarBelow.operand (ih : GrammarBelow (sizeOf (Value.document operators)))
    (h : (operator, value) ∈ operators) : GrammarBelow (sizeOf value) := by
  intro inner hs
  refine ih inner ?_
  have := List.sizeOf_lt_of_mem h
  rw [Prod.mk.sizeOf_spec] at this
  rw [Value.document.sizeOf_spec]
  omega

theorem GrammarBelow.body (ih : GrammarBelow (sizeOf (Value.document inner))) :
    Accepted inner ↔ violations inner = [] := by
  refine ih inner ?_
  rw [Value.document.sizeOf_spec]
  omega

/-- Nothing is wrong with a value that an operator takes. -/
theorem Takes.violations_eq_nil (h : Takes operator value) (ih : GrammarBelow (sizeOf value)) :
    operatorViolations key operator value = [] := by
  have apart : "$elemMatch" ∉ scalarNames ∧ "$elemMatch" ∉ listNames := by decide
  have disjoint : ∀ name ∈ listNames, name ∉ scalarNames := by decide
  unfold operatorViolations
  cases h with
  | scalar _ hs =>
    have he : operator ≠ "$elemMatch" := fun e => apart.1 (by rwa [← e])
    rw [if_neg he, leafViolations, if_pos hs]
  | list items hl =>
    have he : operator ≠ "$elemMatch" := fun e => apart.2 (by rwa [← e])
    rw [if_neg he, leafViolations, if_neg (disjoint operator hl), if_pos hl]
    exact listViolations_eq_nil.2 ⟨items, rfl⟩
  | modulo hd hr => exact moduloViolations_eq_nil.2 ⟨_, _, rfl, hd, hr⟩
  | text s => rfl
  | pattern r => rfl
  | elementOperators ho => exact if_pos ho
  | elementPredicate ha =>
    rw [if_pos rfl]
    dsimp only
    rw [ih.body.1 ha, ite_self]

/-- An operator takes a value with which nothing is wrong. -/
theorem takes_of_violations (h : operatorViolations key operator value = [])
    (ih : GrammarBelow (sizeOf value)) : Takes operator value := by
  unfold operatorViolations at h
  by_cases he : operator = "$elemMatch"
  · subst he
    rw [if_pos rfl] at h
    cases value with
    | document inner =>
      by_cases ho : Fields.isOperators inner = true
      · exact .elementOperators ho
      · dsimp only at h
        rw [if_neg ho] at h
        exact .elementPredicate (ih.body.2 h)
    | _ => exact absurd h nofun
  rw [if_neg he, leafViolations] at h
  by_cases hs : operator ∈ scalarNames
  · exact .scalar value hs
  rw [if_neg hs] at h
  by_cases hl : operator ∈ listNames
  · rw [if_pos hl, listViolations_eq_nil] at h
    obtain ⟨items, rfl⟩ := h
    exact .list items hl
  rw [if_neg hl] at h
  by_cases hm : operator = "$mod"
  · rw [if_pos hm, moduloViolations_eq_nil] at h
    obtain ⟨divisor, remainder, rfl, hd, hr⟩ := h
    exact hm ▸ .modulo hd hr
  rw [if_neg hm] at h
  by_cases hr : operator = "$regex"
  · rw [if_pos hr, patternViolations_eq_nil] at h
    rcases h with ⟨s, rfl⟩ | ⟨r, rfl⟩
    · exact hr ▸ .text s
    · exact hr ▸ .pattern r
  rw [if_neg hr] at h
  exact absurd h nofun

theorem not_logical_of_not_reserved (h : key ∉ reservedKeys) :
    key ∉ logicalKeys ∧ key ≠ "$expr" ∧ key ≠ "$where" ∧ key ≠ "$jsonSchema" := by
  simpa [reservedKeys, not_or] using h

/-- Nothing is wrong with a pair of the grammar. -/
theorem AcceptedPair.violations_eq_nil (h : AcceptedPair key value)
    (ih : GrammarBelow (sizeOf value)) : pairViolations key value = [] := by
  unfold pairViolations
  cases h with
  | @logical _ items hk hi =>
    rw [if_pos hk]
    refine documentsViolations_eq_nil.2 fun item hitem => ?_
    cases hi item hitem with
    | @intro inner ha => exact ⟨inner, rfl, (ih.element hitem).1 ha⟩
  | code hc => rw [if_neg (by decide), if_pos rfl, whereViolations, if_pos hc]
  | whole _ hk => rcases hk with rfl | rfl <;> rfl
  | equality hr hp =>
    obtain ⟨hk, _, hw, _⟩ := not_logical_of_not_reserved hr
    rw [if_neg hk, if_neg hw, if_neg hr]
    split
    · rw [if_neg (by rw [hp _ rfl]; decide)]
    · rfl
  | operators hr hp hf ho =>
    obtain ⟨hk, _, hw, _⟩ := not_logical_of_not_reserved hr
    rw [if_neg hk, if_neg hw, if_neg hr]
    dsimp only
    rw [if_pos hp, List.append_eq_nil_iff, flagsViolations_eq_nil, operatorsViolations_eq_nil]
    exact ⟨hf, fun name v hm hn => (ho name v hm hn).violations_eq_nil (ih.operand hm)⟩

/-- A pair with which nothing is wrong is in the grammar. -/
theorem acceptedPair_of_violations (h : pairViolations key value = [])
    (ih : GrammarBelow (sizeOf value)) : AcceptedPair key value := by
  unfold pairViolations at h
  by_cases hk : key ∈ logicalKeys
  · rw [if_pos hk] at h
    cases value with
    | array items =>
      refine .logical hk fun item hitem => ?_
      obtain ⟨inner, rfl, hn⟩ := documentsViolations_eq_nil.1 h item hitem
      exact .intro ((ih.element hitem).2 hn)
    | _ => exact absurd h nofun
  rw [if_neg hk] at h
  by_cases hw : key = "$where"
  · rw [if_pos hw, whereViolations] at h
    have hc : isCode value = true := by simpa using h
    exact hw ▸ .code hc
  rw [if_neg hw] at h
  by_cases hr : key ∈ reservedKeys
  · have hkey : key = "$expr" ∨ key = "$jsonSchema" := by
      simpa [reservedKeys, hk, hw] using hr
    exact .whole value hkey
  rw [if_neg hr] at h
  by_cases hp : ∃ operators, value = .document operators ∧ Fields.isOperators operators = true
  · obtain ⟨operators, rfl, hp⟩ := hp
    dsimp only at h
    rw [if_pos hp, List.append_eq_nil_iff, flagsViolations_eq_nil, operatorsViolations_eq_nil] at h
    refine .operators hr hp h.1 fun name v hm hn => ?_
    exact takes_of_violations (h.2 name v hm hn) (ih.operand hm)
  · refine .equality hr fun operators hv => ?_
    cases ho : Fields.isOperators operators with
    | false => rfl
    | true => exact absurd ⟨operators, hv, ho⟩ hp

end Below

/-- **The grammar is what has no violations**, by induction over the size of the predicate. -/
theorem accepted_iff (fields : Fields) : Accepted fields ↔ violations fields = [] := by
  induction hn : sizeOf fields using Nat.strongRecOn generalizing fields with
  | ind n ih =>
    subst hn
    have below {key : String} {value : Value} (hm : (key, value) ∈ fields) :
        GrammarBelow (sizeOf value) := by
      intro inner hs
      have := List.sizeOf_lt_of_mem hm
      rw [Prod.mk.sizeOf_spec] at this
      exact ih _ (by omega) inner rfl
    rw [violations_eq_nil]
    constructor
    · rintro ⟨h⟩ key value hm
      exact (h key value hm).violations_eq_nil (below hm)
    · exact fun h => .intro fun key value hm =>
        acceptedPair_of_violations (h key value hm) (below hm)

end QueryScribe.Predicate
