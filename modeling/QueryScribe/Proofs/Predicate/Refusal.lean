import QueryScribe.Proofs.Predicate.Grammar

/-!
# Which predicates are refused, and why

A translation stops at the first fault.  `Reports x vs` says that `x` fails with the first of
the violations `vs`, and succeeds when there are none.  Steps in sequence report what each
of them reports, one after the other (`Reports.bind`), so a place reports the violations in
it as soon as its parts do: `reports` is the induction over places, with one lemma for each
kind of place.  `refused_for_first_violation` puts it together with the grammar.
-/

namespace QueryScribe.Predicate

open QueryScribe.Code QueryScribe.Value QueryScribe.Outcome

/-! ### Reports -/

/-- A result that fails with the first of some violations, and succeeds when there are none. -/
def Reports {α : Type} (x : Result α) : List BuilderError → Prop
  | [] => ∃ a, x = .ok a
  | e :: _ => x = .error e

section Reports

variable {α β : Type}

theorem reports_ok (a : α) : Reports (.ok a) [] := ⟨a, rfl⟩

theorem reports_error (e : BuilderError) (r : List BuilderError) :
    Reports (.error e : Result α) (e :: r) := rfl

theorem Reports.map {x : Result α} {vs : List BuilderError} (h : Reports x vs) (f : α → β) :
    Reports (x.map f) vs := by
  cases vs with
  | nil =>
    obtain ⟨a, rfl⟩ := h
    exact reports_ok (f a)
  | cons e r =>
    obtain rfl : x = .error e := h
    exact reports_error e r

/-- Two steps in sequence report what the first reports and then what the second does. -/
theorem Reports.bind {x : Result α} {f : α → Result β} {vs ws : List BuilderError}
    (h : Reports x vs) (hf : ∀ a, Reports (f a) ws) : Reports (x >>= f) (vs ++ ws) := by
  cases vs with
  | nil =>
    obtain ⟨a, rfl⟩ := h
    exact hf a
  | cons e r =>
    obtain rfl : x = .error e := h
    exact reports_error e (r ++ ws)

theorem Reports.ok_iff {x : Result α} {vs : List BuilderError} (h : Reports x vs) :
    (∃ a, x = .ok a) ↔ vs = [] := by
  cases vs with
  | nil => exact ⟨fun _ => rfl, fun _ => h⟩
  | cons e r =>
    obtain rfl : x = .error e := h
    exact ⟨nofun, nofun⟩

end Reports

/-! ### Operators -/

theorem shape_of_scalar {operator : String} (h : operator ∈ scalarNames) :
    (FieldOperator.find? operator).map FieldOperator.shape = some .scalar := by
  have all : ∀ name ∈ scalarNames,
      (FieldOperator.find? name).map FieldOperator.shape = some .scalar := by decide
  exact all operator h

theorem shape_of_list {operator : String} (h : operator ∈ listNames) :
    (FieldOperator.find? operator).map FieldOperator.shape = some .list := by
  have all : ∀ name ∈ listNames,
      (FieldOperator.find? name).map FieldOperator.shape = some .list := by decide
  exact all operator h

/-- An operator without a name in the grammar has no builder. -/
theorem find?_eq_none {operator : String} (hs : operator ∉ scalarNames)
    (hl : operator ∉ listNames) (hm : operator ≠ "$mod") (hr : operator ≠ "$regex")
    (he : operator ≠ "$elemMatch") : FieldOperator.find? operator = none := by
  cases h : FieldOperator.find? operator with
  | none => rfl
  | some spec =>
    have all : ∀ e ∈ FieldOperator.table, e.1 ∈ scalarNames ∨ e.1 ∈ listNames ∨ e.1 = "$mod"
        ∨ e.1 = "$regex" ∨ e.1 = "$elemMatch" := by decide
    rcases all _ (mem_of_lookup h) with h | h | h | h | h
    · exact absurd h hs
    · exact absurd h hl
    · exact absurd h hm
    · exact absurd h hr
    · exact absurd h he

section Operators

variable {field operator : String} {given : Option String} {value : Value}

/-- The test of an operator with a builder, other than one on the elements of an array. -/
theorem operatorTest_of_shape {fallback : Bool} {shape : FieldShape}
    (h : (FieldOperator.find? operator).map FieldOperator.shape = some shape)
    (hs : shape ≠ .elements) :
    ∃ builder, operatorTest fallback field operator given value
      = simpleOperator field operator ⟨builder, shape⟩ given value := by
  obtain ⟨⟨builder, shape'⟩, hspec, rfl⟩ := Option.map_eq_some_iff.1 h
  refine ⟨builder, ?_⟩
  rw [operatorTest, hspec]
  cases shape' with
  | elements => exact absurd rfl hs
  | _ => cases value <;> rfl

theorem toInteger?_of_isNumber (v : Value) :
    if isNumber v then ∃ i, v.toInteger? = some i else v.toInteger? = none := by
  cases v with
  | int32 i => exact ⟨_, rfl⟩
  | int64 i => exact ⟨_, rfl⟩
  | double d =>
    cases d with
    | finite negative x => exact ⟨_, rfl⟩
    | _ => rfl
  | _ => rfl

theorem reports_list (builder : String) :
    Reports (simpleOperator field operator ⟨builder, .list⟩ given value)
      (listViolations field operator value) := by
  cases value with
  | array items => exact reports_ok _
  | _ => exact reports_error _ _

theorem reports_operands (divisor remainder : Value) :
    Reports (modulo field (.array [divisor, remainder]))
      (moduloViolations field (.array [divisor, remainder])) := by
  have hd := toInteger?_of_isNumber divisor
  have hr := toInteger?_of_isNumber remainder
  rw [modulo, moduloViolations]
  cases nd : isNumber divisor with
  | false =>
    rw [nd, if_neg (by decide)] at hd
    rw [hd]
    exact reports_error _ _
  | true =>
    rw [nd, if_pos rfl] at hd
    obtain ⟨d, hd⟩ := hd
    cases nr : isNumber remainder with
    | false =>
      rw [nr, if_neg (by decide)] at hr
      rw [hd, hr]
      exact reports_error _ _
    | true =>
      rw [nr, if_pos rfl] at hr
      obtain ⟨r, hr⟩ := hr
      rw [hd, hr]
      exact reports_ok _

theorem reports_modulo : Reports (modulo field value) (moduloViolations field value) := by
  by_cases h : ∃ divisor remainder, value = .array [divisor, remainder]
  · obtain ⟨divisor, remainder, rfl⟩ := h
    exact reports_operands divisor remainder
  · have hne : ∀ divisor remainder, value = .array [divisor, remainder] → False :=
      fun divisor remainder e => h ⟨divisor, remainder, e⟩
    rw [modulo.eq_2 field value hne, moduloViolations.eq_2 field value hne]
    exact reports_error _ _

theorem reports_pattern :
    Reports (pattern field given value) (patternViolations field value) := by
  cases value with
  | string s => exact reports_ok _
  | regex r => exact reports_ok _
  | _ => exact reports_error _ _

/-- An operator without a predicate inside reports what is wrong with it. -/
theorem reports_operatorTest (hb : body? operator value = none) :
    Reports (operatorTest false field operator given value)
      (operatorViolations field operator value) := by
  unfold operatorViolations
  by_cases he : operator = "$elemMatch"
  · subst he
    rw [if_pos rfl]
    cases value with
    | document fields =>
      cases ho : Fields.isOperators fields with
      | false =>
        rw [body?, if_pos ⟨rfl, ho⟩] at hb
        exact absurd hb (Option.some_ne_none fields)
      | true =>
        dsimp only
        rw [if_pos ho]
        exact reports_ok _
    | _ => exact reports_error _ _
  rw [if_neg he, leafViolations]
  by_cases hs : operator ∈ scalarNames
  · obtain ⟨builder, h⟩ := operatorTest_of_shape (shape_of_scalar hs) (by decide)
    rw [h, if_pos hs]
    exact reports_ok _
  rw [if_neg hs]
  by_cases hl : operator ∈ listNames
  · obtain ⟨builder, h⟩ := operatorTest_of_shape (shape_of_list hl) (by decide)
    rw [h, if_pos hl]
    exact reports_list builder
  rw [if_neg hl]
  by_cases hm : operator = "$mod"
  · subst hm
    have hshape : (FieldOperator.find? "$mod").map FieldOperator.shape = some .modulo := rfl
    obtain ⟨builder, h⟩ := operatorTest_of_shape hshape (by decide)
    rw [h, if_pos rfl]
    exact reports_modulo.map _
  rw [if_neg hm]
  by_cases hr : operator = "$regex"
  · subst hr
    have hshape : (FieldOperator.find? "$regex").map FieldOperator.shape = some .pattern := rfl
    obtain ⟨builder, h⟩ := operatorTest_of_shape hshape (by decide)
    rw [h, if_pos rfl]
    exact reports_pattern.map _
  rw [if_neg hr, operatorTest, find?_eq_none hs hl hm hr he]
  exact reports_error _ _

end Operators

/-! ### Places -/

def Place.violations : Place → List BuilderError
  | pairs fields => Predicate.violations fields
  | documents items => documentsViolations items
  | operators field _ beside ops => operatorsViolations field beside ops

/-- Every place smaller than some size reports what is wrong at it. -/
def ReportedBelow (size : Nat) : Prop :=
  ∀ place : Place, place.size < size → Reports (place.conditions false) place.violations

theorem ofKey?_isSome (key : String) :
    (Connective.ofKey? key).isSome = true ↔ key ∈ logicalKeys := by
  unfold Connective.ofKey?
  by_cases ha : key = "$and"
  · simp [ha, logicalKeys]
  by_cases ho : key = "$or"
  · simp [ho, logicalKeys]
  by_cases hn : key = "$nor"
  · simp [hn, logicalKeys]
  simp [ha, ho, hn, logicalKeys]

theorem ofKey?_eq_none {key : String} : Connective.ofKey? key = none ↔ key ∉ logicalKeys := by
  rw [← ofKey?_isSome, Option.not_isSome_iff_eq_none]

theorem reports_flags (field : String) (operators : Fields) :
    Reports (givenFlags? field operators) (flagsViolations field operators) := by
  unfold givenFlags? flagsViolations
  cases operators.get? "$options" with
  | none => exact reports_ok _
  | some v =>
    cases v with
    | string s => exact reports_ok _
    | _ => exact reports_error _ _

section Places

variable {key : String} {value : Value}

theorem reports_logical (hk : key ∈ logicalKeys)
    (ih : ∀ items, value = .array items →
      Reports (alternatives false items) (documentsViolations items)) :
    Reports (pairConditions false key value) (pairViolations key value) := by
  obtain ⟨connective, hc⟩ := Option.isSome_iff_exists.1 ((ofKey?_isSome key).2 hk)
  unfold pairConditions pairViolations
  rw [hc, if_pos hk]
  cases value with
  | array items => exact (ih items rfl).map _
  | _ => exact reports_error _ _

theorem reports_plain (hk : key ∉ logicalKeys) (ho : operators? key value = none) :
    Reports (plainPair key value) (pairViolations key value) := by
  unfold pairViolations
  rw [if_neg hk, plainPair.eq_def]
  by_cases hw : key = "$where"
  · subst hw
    rw [if_neg (by decide), if_pos rfl, if_pos rfl, whereViolations]
    cases value with
    | string s => exact reports_ok _
    | javaScript s => exact reports_ok _
    | _ => exact reports_error _ _
  rw [if_neg hw, if_neg hw]
  by_cases hr : key ∈ reservedKeys
  · rw [if_pos hr]
    split
    · exact reports_ok _
    · split
      · exact reports_ok _
      · exact reports_ok _
  rw [if_neg hr]
  obtain ⟨_, he, _, hs⟩ := not_logical_of_not_reserved hr
  rw [if_neg he, if_neg hs]
  have hwhole : isWhole key = false := by simp [isWhole, he, hw, hs]
  cases value with
  | document operators =>
    cases hp : Fields.isOperators operators with
    | false =>
      dsimp only
      rw [if_neg (by simp [hp])]
      exact reports_ok _
    | true =>
      rw [operators?, if_pos ⟨hwhole, hp⟩] at ho
      exact absurd ho (Option.some_ne_none operators)
  | _ => exact reports_ok _

theorem reports_pair
    (ihd : ∀ items, value = .array items →
      Reports (alternatives false items) (documentsViolations items))
    (iho : ∀ operators given beside, value = .document operators →
      Reports (fieldConditions false key given beside operators)
        (operatorsViolations key beside operators)) :
    Reports (pairConditions false key value) (pairViolations key value) := by
  by_cases hk : key ∈ logicalKeys
  · exact reports_logical hk ihd
  rw [pairConditions, ofKey?_eq_none.2 hk]
  dsimp only
  cases ho : operators? key value with
  | none => exact (reports_plain hk ho).map _
  | some operators =>
    dsimp only
    obtain rfl := eq_document_of_operators ho
    obtain ⟨⟨hw, hp⟩, _⟩ := Option.ite_none_right_eq_some.1 ho
    have hr : key ∉ reservedKeys := by
      rw [mem_reservedKeys, hw]
      simp [hk]
    have hne : key ≠ "$where" := fun e => hr (by rw [e]; decide)
    unfold pairViolations
    rw [if_neg hk, if_neg hne, if_neg hr]
    dsimp only
    rw [if_pos hp]
    exact (reports_flags key operators).bind fun given => iho operators given _ rfl

theorem reports_pairs {fields : Fields} (ih : ReportedBelow (Place.pairs fields).size) :
    Reports (conditions false fields) (violations fields) := by
  cases fields with
  | nil =>
    rw [conditions, violations]
    exact reports_ok _
  | cons f r =>
    obtain ⟨key, value⟩ := f
    simp only [ReportedBelow, Place.size, List.cons.sizeOf_spec, Prod.mk.sizeOf_spec] at ih
    have rest : Reports (conditions false r) (violations r) :=
      ih (.pairs r) (by show sizeOf r < _; omega)
    have first : Reports (pairConditions false key value) (pairViolations key value) := by
      refine reports_pair (fun items hv => ?_) fun operators given beside hv => ?_
      · subst hv
        rw [array.sizeOf_spec] at ih
        exact ih (.documents items) (by show sizeOf items < _; omega)
      · subst hv
        rw [document.sizeOf_spec] at ih
        exact ih (.operators key given beside operators)
          (by show sizeOf operators < _; omega)
    rw [conditions_cons, violations]
    exact first.bind fun _ => rest.map _

theorem reports_documents {items : List Value}
    (ih : ReportedBelow (Place.documents items).size) :
    Reports (alternatives false items) (documentsViolations items) := by
  cases items with
  | nil =>
    rw [alternatives, documentsViolations]
    exact reports_ok _
  | cons v items =>
    simp only [ReportedBelow, Place.size, List.cons.sizeOf_spec] at ih
    have rest : Reports (alternatives false items) (documentsViolations items) :=
      ih (.documents items) (by show sizeOf items < _; omega)
    rw [alternatives]
    cases v with
    | document inner =>
      rw [document.sizeOf_spec] at ih
      have first : Reports (conditions false inner) (violations inner) :=
        ih (.pairs inner) (by show sizeOf inner < _; omega)
      rw [alternative, documentsViolations]
      exact (first.map _).bind fun _ => rest.map _
    | _ => exact reports_error _ _

theorem reports_operators {field : String} {given : Option String} {beside : Bool} {ops : Fields}
    (ih : ReportedBelow (Place.operators field given beside ops).size) :
    Reports (fieldConditions false field given beside ops)
      (operatorsViolations field beside ops) := by
  cases ops with
  | nil =>
    rw [fieldConditions, operatorsViolations]
    exact reports_ok _
  | cons o r =>
    obtain ⟨operator, value⟩ := o
    simp only [ReportedBelow, Place.size, List.cons.sizeOf_spec, Prod.mk.sizeOf_spec] at ih
    have rest : Reports (fieldConditions false field given beside r)
        (operatorsViolations field beside r) :=
      ih (.operators field given beside r) (by show sizeOf r < _; omega)
    rw [fieldConditions_cons, operatorsViolations]
    by_cases hf : operator = "$options" ∧ beside = true
    · rw [if_pos hf, if_pos hf]
      exact rest
    rw [if_neg hf, if_neg hf]
    have first : Reports (operatorCondition false field operator given value)
        (operatorViolations field operator value) := by
      rw [operatorCondition]
      cases hb : body? operator value with
      | none => exact reports_operatorTest hb
      | some inner =>
        obtain rfl := eq_document_of_body hb
        obtain ⟨⟨he, hp⟩, _⟩ := Option.ite_none_right_eq_some.1 hb
        rw [document.sizeOf_spec] at ih
        have body : Reports (conditions false inner) (violations inner) :=
          ih (.pairs inner) (by show sizeOf inner < _; omega)
        unfold operatorViolations
        rw [if_pos ((elements_iff operator).1 he)]
        dsimp only
        rw [if_neg (by simp [hp])]
        exact body.map _
    exact first.bind fun _ => rest.map _

end Places

/-- **Every place reports what is wrong at it**, by induction over the size of the place. -/
theorem reports (place : Place) : Reports (place.conditions false) place.violations := by
  induction hn : place.size using Nat.strongRecOn generalizing place with
  | ind n ih =>
    have below : ReportedBelow place.size := by
      intro smaller hsize
      exact ih smaller.size (hn ▸ hsize) smaller rfl
    cases place with
    | pairs fields => exact reports_pairs below
    | documents items => exact reports_documents below
    | operators field given beside ops => exact reports_operators below

/-! ### Refusals -/

/-- A predicate has conditions exactly when it is in the grammar. -/
theorem conditions_ok_iff (fields : Fields) :
    (∃ cs, conditions false fields = .ok cs) ↔ Accepted fields := by
  rw [accepted_iff]
  exact (reports (.pairs fields)).ok_iff

/-- **A predicate is translated exactly when it is in the grammar, and otherwise refused for the
first thing that is wrong with it.** -/
theorem refused_for_first_violation (fields : Fields) :
    ((∃ links, Predicate.links false fields = .ok links) ↔ Accepted fields)
      ∧ (¬ Accepted fields → ∃ e r, violations fields = e :: r
        ∧ Predicate.links false fields = .error e) := by
  have h : Reports (Predicate.links false fields) (violations fields) :=
    (reports (.pairs fields)).map _
  rw [accepted_iff]
  refine ⟨h.ok_iff, fun hn => ?_⟩
  cases hv : violations fields with
  | nil => exact absurd hv hn
  | cons e r =>
    rw [hv] at h
    exact ⟨e, r, rfl, h⟩

/-- An unknown operator is found before the operand of the next one and before the next pair. -/
example : violations [("a", .document [("$near", .int32 1), ("$mod", .int32 3)]), ("$or", .null)]
    = [.unsupported "$near", .fault (.modNotPair "a"), .fault (.logicalNotArray "$or" "null")] :=
  rfl

end QueryScribe.Predicate
