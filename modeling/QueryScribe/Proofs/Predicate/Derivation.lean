import QueryScribe.Builder.Predicate
import QueryScribe.Proofs.Outcome

/-!
# Derivations of conditions

Predicates, the documents of a logical operator and the operators of a field are
translated by three functions that call each other.  `Derives` is the one relation
behind them: which conditions a place of a predicate becomes, with a rule for each kind
of pair, document and operator.  `derives_iff` says that the functions succeed exactly
along the rules, so what is to be shown of the conditions of every predicate is shown
by one induction over derivations.
-/

namespace QueryScribe.Predicate

open QueryScribe.Code QueryScribe.Value QueryScribe.Outcome

/-! ### The kinds of pairs and operators -/

/-- The operators of a pair, if its key is a field and its value a document of operators. -/
def operators? (key : String) : Value → Option Fields
  | .document operators =>
    if isWhole key = false ∧ Fields.isOperators operators = true then some operators else none
  | _ => none

theorem eq_document_of_operators {key : String} {value : Value} {operators : Fields}
    (h : operators? key value = some operators) : value = .document operators := by
  cases value with
  | document fields =>
    obtain ⟨_, h⟩ := Option.ite_none_right_eq_some.1 h
    rw [Option.some.inj h]
  | _ => exact absurd h nofun

theorem isOperators_of_operators {key : String} {value : Value} {operators : Fields}
    (h : operators? key value = some operators) : Fields.isOperators operators = true := by
  cases value with
  | document fields =>
    obtain ⟨⟨_, hp⟩, h⟩ := Option.ite_none_right_eq_some.1 h
    rwa [← Option.some.inj h]
  | _ => exact absurd h nofun

/-- A document of operators has an operator that is not just the flags beside another one. -/
theorem exists_operator {operators : Fields} (h : Fields.isOperators operators = true) :
    ∃ o ∈ operators, ¬ (o.1 = "$options" ∧ operators.any (·.1 = "$regex") = true) := by
  by_cases hp : operators.any (·.1 = "$regex") = true
  · obtain ⟨o, ho, hr⟩ := List.any_eq_true.1 hp
    refine ⟨o, ho, fun hn => ?_⟩
    rw [hn.1] at hr
    exact absurd hr (by decide)
  · cases operators with
    | nil => exact absurd h (by decide)
    | cons o r => exact ⟨o, List.mem_cons_self, fun hn => hp hn.2⟩

/-- The predicate that an operator puts on the elements of an array, if it has one. -/
def body? (operator : String) : Value → Option Fields
  | .document fields =>
    if (FieldOperator.find? operator).map FieldOperator.shape = some .elements
        ∧ Fields.isOperators fields = false then some fields else none
  | _ => none

/-- The test that a field's operator becomes when it has no predicate inside. -/
def operatorTest (fallback : Bool) (field operator : String) (given : Option String)
    (value : Value) : Result Condition :=
  match FieldOperator.find? operator with
  | none => unknownOperator fallback field operator value
  | some spec =>
    match spec.shape, value with
    | .elements, .document fields =>
      .ok (fieldTest spec.builder field [(rawTest (Value.document fields).literal).code])
    | _, value => simpleOperator field operator spec given value

def pairConditions (fallback : Bool) (key : String) (value : Value) : Result (List Condition) :=
  match Connective.ofKey? key with
  | some connective =>
    match value with
    | .array items => (alternatives fallback items).map fun parts => [.junction connective parts]
    | v => refuse (.logicalNotArray key v.kind)
  | none =>
    match operators? key value with
    | some operators => do
      let given ← givenFlags? key operators
      fieldConditions fallback key given (operators.any (·.1 = "$regex")) operators
    | none => (plainPair key value).map ([·])

def operatorCondition (fallback : Bool) (field operator : String) (given : Option String)
    (value : Value) : Result Condition :=
  match body? operator value with
  | some fields =>
    (conditions fallback fields).map fun parts => .element field (Condition.together parts)
  | none => operatorTest fallback field operator given value

theorem conditions_cons (fallback : Bool) (key : String) (value : Value)
    (r : List (String × Value)) :
    conditions fallback ((key, value) :: r) = do
      let first ← pairConditions fallback key value
      let rest ← conditions fallback r
      return first ++ rest := by
  rw [conditions.eq_def, pairConditions]
  dsimp only
  cases Connective.ofKey? key with
  | some connective =>
    cases value with
    | array items =>
      dsimp only
      cases alternatives fallback items <;> rfl
    | _ => rfl
  | none =>
    dsimp only
    cases hw : isWhole key with
    | true =>
      cases value <;> simp [operators?, hw]
    | false =>
      cases value with
      | document operators =>
        cases ho : Fields.isOperators operators <;> simp [operators?, hw, ho]
      | _ => rfl

theorem fieldConditions_cons (fallback : Bool) (field operator : String) (given : Option String)
    (beside : Bool) (value : Value) (r : List (String × Value)) :
    fieldConditions fallback field given beside ((operator, value) :: r)
      = if operator = "$options" ∧ beside = true then fieldConditions fallback field given beside r
        else do
          let first ← operatorCondition fallback field operator given value
          let rest ← fieldConditions fallback field given beside r
          return first :: rest := by
  rw [fieldConditions.eq_def]
  dsimp only
  by_cases h : operator = "$options" ∧ beside = true
  · rw [if_pos h, if_pos (by simpa using h)]
  · rw [if_neg h, if_neg (by simpa using h), operatorCondition, operatorTest]
    cases hf : FieldOperator.find? operator with
    | none => cases value <;> simp [body?, hf]
    | some spec =>
      obtain ⟨builder, shape⟩ := spec
      cases shape with
      | elements =>
        cases value with
        | document fields =>
          cases ho : Fields.isOperators fields with
          | true => simp [body?, hf, ho]
          | false =>
            simp [body?, hf, ho]
            cases conditions fallback fields <;> rfl
        | _ => rfl
      | _ => cases value <;> simp [body?, hf]

/-! ### Single tests -/

/-- A pair that is no logical operator and has no operators becomes one test: of the whole document
or of the field's equality. -/
theorem plainPair_cases {key : String} {value : Value} {c : Condition}
    (h : plainPair key value = .ok c) :
    (isWhole key = true ∧ ∃ builder ∈ ["Expr", "Where", "JsonSchema"], ∃ args,
        c = .test builder args)
      ∨ isWhole key = false ∧ c = fieldTest "Eq" key [value.literal] := by
  rw [plainPair.eq_def] at h
  by_cases he : key = "$expr"
  · rw [if_pos he] at h
    exact .inl ⟨by simp [isWhole, he], "Expr", by simp, _, (Except.ok.inj h).symm⟩
  rw [if_neg he] at h
  by_cases hw : key = "$where"
  · rw [if_pos hw] at h
    refine .inl ⟨by simp [isWhole, hw], "Where", by simp, ?_⟩
    cases value with
    | string s => exact ⟨_, (Except.ok.inj h).symm⟩
    | javaScript s => exact ⟨_, (Except.ok.inj h).symm⟩
    | _ => exact absurd h nofun
  rw [if_neg hw] at h
  by_cases hs : key = "$jsonSchema"
  · rw [if_pos hs] at h
    exact .inl ⟨by simp [isWhole, hs], "JsonSchema", by simp, _, (Except.ok.inj h).symm⟩
  rw [if_neg hs] at h
  exact .inr ⟨by simp [isWhole, he, hw, hs], (Except.ok.inj h).symm⟩

theorem exists_fieldTest_of_simpleOperator {field operator : String} {spec : FieldOperator}
    {given : Option String} {value : Value} {c : Condition}
    (h : simpleOperator field operator spec given value = .ok c) :
    ∃ args, c = fieldTest spec.builder field args := by
  unfold simpleOperator at h
  split at h
  · exact ⟨_, (Except.ok.inj h).symm⟩
  · split at h
    · exact ⟨_, (Except.ok.inj h).symm⟩
    · exact absurd h nofun
  · obtain ⟨args, _, rfl⟩ := map_eq_ok.1 h
    exact ⟨args, rfl⟩
  · obtain ⟨args, _, rfl⟩ := map_eq_ok.1 h
    exact ⟨args, rfl⟩
  · exact absurd h nofun

/-- An operator without a predicate inside becomes one test: of its field, or without a builder one
that is passed on as a document. -/
theorem operatorTest_cases {fallback : Bool} {field operator : String} {given : Option String}
    {value : Value} {c : Condition} (h : operatorTest fallback field operator given value = .ok c) :
    (∃ spec args, FieldOperator.find? operator = some spec ∧ c = fieldTest spec.builder field args)
      ∨ fallback = true ∧ c = rawTest (rawPair field (rawPair operator value.literal)) := by
  unfold operatorTest at h
  cases hspec : FieldOperator.find? operator with
  | none =>
    rw [hspec] at h
    cases fallback with
    | true => exact .inr ⟨rfl, (Except.ok.inj h).symm⟩
    | false => exact absurd h nofun
  | some spec =>
    rw [hspec] at h
    dsimp only at h
    refine .inl ⟨spec, ?_⟩
    split at h
    · exact ⟨_, rfl, (Except.ok.inj h).symm⟩
    · obtain ⟨args, rfl⟩ := exists_fieldTest_of_simpleOperator h
      exact ⟨args, rfl, rfl⟩

/-! ### Derivations -/

/-- A place of a predicate that becomes conditions. -/
inductive Place where
  /-- The pairs of a predicate. -/
  | pairs (fields : Fields)
  /-- The documents of a logical operator. -/
  | documents (items : List Value)
  /-- The operators of a field, with the flags given beside a pattern. -/
  | operators (field : String) (given : Option String) (beside : Bool) (operators : Fields)

def Place.conditions (fallback : Bool) : Place → Result (List Condition)
  | pairs fields => Predicate.conditions fallback fields
  | documents items => alternatives fallback items
  | operators field given beside ops => fieldConditions fallback field given beside ops

/-- The rules by which a place becomes conditions. -/
inductive Derives (fallback : Bool) : Place → List Condition → Prop
  | noPairs : Derives fallback (.pairs []) []
  | logical {key : String} {connective : Connective} {items : List Value} {r : Fields}
      {parts cs : List Condition} : Connective.ofKey? key = some connective →
      Derives fallback (.documents items) parts → Derives fallback (.pairs r) cs →
      Derives fallback (.pairs ((key, .array items) :: r)) (.junction connective parts :: cs)
  | field {key : String} {value : Value} {operators r : Fields} {given : Option String}
      {parts cs : List Condition} : Connective.ofKey? key = none →
      operators? key value = some operators → givenFlags? key operators = .ok given →
      Derives fallback (.operators key given (operators.any (·.1 = "$regex")) operators) parts →
      Derives fallback (.pairs r) cs → Derives fallback (.pairs ((key, value) :: r)) (parts ++ cs)
  | plain {key : String} {value : Value} {r : Fields} {c : Condition} {cs : List Condition} :
      Connective.ofKey? key = none → operators? key value = none → plainPair key value = .ok c →
      Derives fallback (.pairs r) cs → Derives fallback (.pairs ((key, value) :: r)) (c :: cs)
  | noDocuments : Derives fallback (.documents []) []
  | document {fields : Fields} {items : List Value} {parts cs : List Condition} :
      Derives fallback (.pairs fields) parts → Derives fallback (.documents items) cs →
      Derives fallback (.documents (.document fields :: items)) (Condition.together parts :: cs)
  | noOperators {field : String} {given : Option String} {beside : Bool} :
      Derives fallback (.operators field given beside []) []
  | flags {field : String} {given : Option String} {value : Value} {r : Fields}
      {cs : List Condition} : Derives fallback (.operators field given true r) cs →
      Derives fallback (.operators field given true (("$options", value) :: r)) cs
  | body {field operator : String} {given : Option String} {beside : Bool} {value : Value}
      {fields r : Fields} {parts cs : List Condition} :
      ¬ (operator = "$options" ∧ beside = true) → body? operator value = some fields →
      Derives fallback (.pairs fields) parts →
      Derives fallback (.operators field given beside r) cs →
      Derives fallback (.operators field given beside ((operator, value) :: r))
        (.element field (Condition.together parts) :: cs)
  | operator {field operator : String} {given : Option String} {beside : Bool} {value : Value}
      {r : Fields} {c : Condition} {cs : List Condition} :
      ¬ (operator = "$options" ∧ beside = true) → body? operator value = none →
      operatorTest fallback field operator given value = .ok c →
      Derives fallback (.operators field given beside r) cs →
      Derives fallback (.operators field given beside ((operator, value) :: r)) (c :: cs)

theorem Derives.conditions {fallback : Bool} {place : Place} {cs : List Condition}
    (h : Derives fallback place cs) : place.conditions fallback = .ok cs := by
  induction h with
  | noPairs => rw [Place.conditions, Predicate.conditions]
  | logical hk _ _ ihd ihr =>
    simp only [Place.conditions] at ihd ihr ⊢
    rw [conditions_cons, pairConditions, hk]
    dsimp only
    rw [ihd, ihr]
    rfl
  | field hk ho hg _ _ ihd ihr =>
    simp only [Place.conditions] at ihd ihr ⊢
    rw [conditions_cons, pairConditions, hk]
    dsimp only
    rw [ho]
    dsimp only
    rw [hg, ok_bind, ihd, ihr]
    rfl
  | plain hk ho hp _ ihr =>
    simp only [Place.conditions] at ihr ⊢
    rw [conditions_cons, pairConditions, hk]
    dsimp only
    rw [ho]
    dsimp only
    rw [hp, ihr]
    rfl
  | noDocuments => rw [Place.conditions, alternatives]
  | document _ _ ihd ihr =>
    simp only [Place.conditions] at ihd ihr ⊢
    rw [alternatives, alternative, ihd, ihr]
    rfl
  | noOperators => rw [Place.conditions, fieldConditions]
  | flags _ ih =>
    simp only [Place.conditions] at ih ⊢
    rw [fieldConditions_cons, if_pos ⟨rfl, rfl⟩, ih]
  | body hn hb _ _ ihb ihr =>
    simp only [Place.conditions] at ihb ihr ⊢
    rw [fieldConditions_cons, if_neg hn, operatorCondition, hb]
    dsimp only
    rw [ihb, ihr]
    rfl
  | operator hn hb ht _ ihr =>
    simp only [Place.conditions] at ihr ⊢
    rw [fieldConditions_cons, if_neg hn, operatorCondition, hb]
    dsimp only
    rw [ht, ihr]
    rfl

noncomputable def Place.size : Place → Nat
  | pairs fields => sizeOf fields
  | documents items => sizeOf items
  | operators _ _ _ ops => sizeOf ops

theorem eq_document_of_body {operator : String} {value : Value} {fields : Fields}
    (h : body? operator value = some fields) : value = .document fields := by
  cases value with
  | document fields =>
    obtain ⟨_, h⟩ := Option.ite_none_right_eq_some.1 h
    rw [Option.some.inj h]
  | _ => exact absurd h nofun

/-- **Induction over places.**  What a place holds is a smaller place, whether it is a predicate or
a list of documents or operators. -/
theorem place_induction {P : Place → Prop} (noPairs : P (.pairs []))
    (pair : ∀ key value r, (∀ items, value = .array items → P (.documents items)) →
      (∀ given beside operators, value = .document operators →
        P (.operators key given beside operators)) → P (.pairs r) → P (.pairs ((key, value) :: r)))
    (noDocuments : P (.documents []))
    (document : ∀ value items, (∀ fields, value = .document fields → P (.pairs fields)) →
      P (.documents items) → P (.documents (value :: items)))
    (noOperators : ∀ field given beside, P (.operators field given beside []))
    (operator : ∀ field given beside operator value r,
      (∀ fields, value = .document fields → P (.pairs fields)) →
      P (.operators field given beside r) →
      P (.operators field given beside ((operator, value) :: r)))
    (place : Place) : P place := by
  induction hn : place.size using Nat.strongRecOn generalizing place with
  | ind n ih =>
    have below : ∀ smaller : Place, smaller.size < place.size → P smaller := by
      intro smaller hsize
      exact ih smaller.size (hn ▸ hsize) smaller rfl
    match place with
    | .pairs [] => exact noPairs
    | .pairs ((key, value) :: r) =>
      simp only [Place.size, List.cons.sizeOf_spec, Prod.mk.sizeOf_spec] at below
      refine pair key value r ?_ ?_ (below (.pairs r) (by show sizeOf r < _; omega))
      · rintro items rfl
        rw [Value.array.sizeOf_spec] at below
        exact below (.documents items) (by show sizeOf items < _; omega)
      · rintro given beside operators rfl
        rw [Value.document.sizeOf_spec] at below
        exact below (.operators key given beside operators)
          (by show sizeOf operators < _; omega)
    | .documents [] => exact noDocuments
    | .documents (value :: items) =>
      simp only [Place.size, List.cons.sizeOf_spec] at below
      refine document value items ?_ (below (.documents items) (by show sizeOf items < _; omega))
      rintro fields rfl
      rw [Value.document.sizeOf_spec] at below
      exact below (.pairs fields) (by show sizeOf fields < _; omega)
    | .operators field given beside [] => exact noOperators field given beside
    | .operators field given beside ((key, value) :: r) =>
      simp only [Place.size, List.cons.sizeOf_spec, Prod.mk.sizeOf_spec] at below
      refine operator field given beside key value r ?_
        (below (.operators field given beside r) (by show sizeOf r < _; omega))
      rintro fields rfl
      rw [Value.document.sizeOf_spec] at below
      exact below (.pairs fields) (by show sizeOf fields < _; omega)

/-- What succeeds at a place smaller than some size is derived. -/
def DerivedBelow (fallback : Bool) (size : Nat) : Prop :=
  ∀ {place : Place} {cs : List Condition}, place.size < size →
    place.conditions fallback = .ok cs → Derives fallback place cs

section Derived

variable {fallback : Bool} {cs : List Condition}

theorem derives_pairs {fields : Fields}
    (ih : DerivedBelow fallback (Place.pairs fields).size)
    (h : conditions fallback fields = .ok cs) : Derives fallback (.pairs fields) cs := by
  cases fields with
  | nil =>
    rw [conditions, Except.ok.injEq] at h
    rw [← h]
    exact .noPairs
  | cons f r =>
    obtain ⟨key, value⟩ := f
    rw [conditions_cons, bind_eq_ok] at h
    obtain ⟨first, hfirst, h⟩ := h
    obtain ⟨rest, hrest, h⟩ := bind_eq_ok.1 h
    obtain rfl := pure_eq_ok.1 h
    simp only [DerivedBelow, Place.size, List.cons.sizeOf_spec, Prod.mk.sizeOf_spec] at ih
    have tail : Derives fallback (.pairs r) rest := ih (by show sizeOf r < _; omega) hrest
    rw [pairConditions] at hfirst
    cases hk : Connective.ofKey? key with
    | some connective =>
      rw [hk] at hfirst
      cases value with
      | array items =>
        obtain ⟨parts, hparts, rfl⟩ := map_eq_ok.1 hfirst
        rw [Value.array.sizeOf_spec] at ih
        have inner : Derives fallback (.documents items) parts :=
          ih (by show sizeOf items < _; omega) hparts
        exact .logical hk inner tail
      | _ => exact absurd hfirst nofun
    | none =>
      rw [hk] at hfirst
      dsimp only at hfirst
      cases ho : operators? key value with
      | some operators =>
        rw [ho] at hfirst
        obtain ⟨given, hg, hparts⟩ := bind_eq_ok.1 hfirst
        rw [eq_document_of_operators ho, Value.document.sizeOf_spec] at ih
        have inner : Derives fallback
            (.operators key given (operators.any (·.1 = "$regex")) operators) first :=
          ih (by show sizeOf operators < _; omega) hparts
        exact .field hk ho hg inner tail
      | none =>
        rw [ho] at hfirst
        obtain ⟨c, hc, rfl⟩ := map_eq_ok.1 hfirst
        exact .plain hk ho hc tail

theorem derives_documents {items : List Value}
    (ih : DerivedBelow fallback (Place.documents items).size)
    (h : alternatives fallback items = .ok cs) : Derives fallback (.documents items) cs := by
  cases items with
  | nil =>
    rw [alternatives, Except.ok.injEq] at h
    rw [← h]
    exact .noDocuments
  | cons v items =>
    rw [alternatives, bind_eq_ok] at h
    obtain ⟨first, hfirst, h⟩ := h
    obtain ⟨rest, hrest, h⟩ := bind_eq_ok.1 h
    obtain rfl := pure_eq_ok.1 h
    simp only [DerivedBelow, Place.size, List.cons.sizeOf_spec] at ih
    have tail : Derives fallback (.documents items) rest :=
      ih (by show sizeOf items < _; omega) hrest
    cases v with
    | document fields =>
      rw [alternative] at hfirst
      obtain ⟨parts, hparts, rfl⟩ := map_eq_ok.1 hfirst
      rw [Value.document.sizeOf_spec] at ih
      have inner : Derives fallback (.pairs fields) parts :=
        ih (by show sizeOf fields < _; omega) hparts
      exact .document inner tail
    | _ => exact absurd hfirst nofun

theorem derives_operators {field : String} {given : Option String} {beside : Bool} {ops : Fields}
    (ih : DerivedBelow fallback (Place.operators field given beside ops).size)
    (h : fieldConditions fallback field given beside ops = .ok cs) :
    Derives fallback (.operators field given beside ops) cs := by
  cases ops with
  | nil =>
    rw [fieldConditions, Except.ok.injEq] at h
    rw [← h]
    exact .noOperators
  | cons o r =>
    obtain ⟨operator, value⟩ := o
    rw [fieldConditions_cons] at h
    simp only [DerivedBelow, Place.size, List.cons.sizeOf_spec, Prod.mk.sizeOf_spec] at ih
    have below {cs : List Condition} (h : fieldConditions fallback field given beside r = .ok cs) :
        Derives fallback (.operators field given beside r) cs :=
      ih (by show sizeOf r < _; omega) h
    by_cases hn : operator = "$options" ∧ beside = true
    · rw [if_pos hn] at h
      obtain ⟨rfl, rfl⟩ := hn
      exact .flags (below h)
    · rw [if_neg hn, bind_eq_ok] at h
      obtain ⟨first, hfirst, h⟩ := h
      obtain ⟨rest, hrest, h⟩ := bind_eq_ok.1 h
      obtain rfl := pure_eq_ok.1 h
      rw [operatorCondition] at hfirst
      cases hb : body? operator value with
      | some fields =>
        rw [hb] at hfirst
        obtain ⟨parts, hparts, rfl⟩ := map_eq_ok.1 hfirst
        rw [eq_document_of_body hb, Value.document.sizeOf_spec] at ih
        have inner : Derives fallback (.pairs fields) parts :=
          ih (by show sizeOf fields < _; omega) hparts
        exact .body hn hb inner (below hrest)
      | none =>
        rw [hb] at hfirst
        exact .operator hn hb hfirst (below hrest)

end Derived

/-- What succeeds is derived, by induction over the size of the place. -/
theorem derives_of_conditions {fallback : Bool} {place : Place} {cs : List Condition}
    (h : place.conditions fallback = .ok cs) : Derives fallback place cs := by
  induction hn : place.size using Nat.strongRecOn generalizing place cs with
  | ind n ih =>
    have below : DerivedBelow fallback place.size := by
      intro smaller ds hsize hds
      exact ih smaller.size (hn ▸ hsize) hds rfl
    cases place with
    | pairs fields => exact derives_pairs below h
    | documents items => exact derives_documents below h
    | operators field given beside ops => exact derives_operators below h

/-- **The translation succeeds exactly along the rules.** -/
theorem derives_iff {fallback : Bool} {place : Place} {cs : List Condition} :
    place.conditions fallback = .ok cs ↔ Derives fallback place cs :=
  ⟨derives_of_conditions, Derives.conditions⟩

end QueryScribe.Predicate
