import QueryScribe.Proofs.Predicate.Derivation
import QueryScribe.Proofs.Value.Quiet
import QueryScribe.Query

/-!
# Code shows no more than text does

A value and its quiet form have the same code, or are refused for the same reason.  Every
builder looks at a value in one of a few ways: at its kind, at a field, at a number or
a string, or at the literal, and none of them sees the sign of a decimal NaN.  So
each function gives the same for a value and its quiet form, from `literal_quiet` up
to `ofValue_quiet`.
-/

namespace QueryScribe

open QueryScribe.Code QueryScribe.Outcome

namespace Value

/-! ### Looking at a value -/

@[simp] theorem kind_quiet (v : Value) : v.quiet.kind = v.kind := by
  cases v <;> rfl

@[simp] theorem toInteger?_quiet (v : Value) : v.quiet.toInteger? = v.toInteger? := by
  cases v <;> rfl

@[simp] theorem toString?_quiet (v : Value) : v.quiet.toString? = v.toString? := by
  cases v <;> rfl

@[simp] theorem length_quietItems (items : List Value) :
    (quietItems items).length = items.length := by
  rw [quietItems_eq_map, List.length_map]

@[simp] theorem length_quietFields (fields : Fields) :
    (quietFields fields).length = fields.length := by
  rw [quietFields_eq_map, List.length_map]

@[simp] theorem get?_quietFields (fields : Fields) (key : String) :
    Fields.get? (quietFields fields) key = (Fields.get? fields key).map quiet := by
  induction fields with
  | nil => rfl
  | cons f r ih =>
    obtain ⟨k, v⟩ := f
    simp only [Fields.get?] at ih
    rw [quietFields, Fields.get?, Fields.get?, List.lookup_cons, List.lookup_cons, ih]
    split
    · rfl
    · rfl

@[simp] theorem any_quietFields (fields : Fields) (p : String → Bool) :
    (quietFields fields).any (fun f => p f.1) = fields.any fun f => p f.1 := by
  rw [quietFields_eq_map, List.any_map]
  rfl

@[simp] theorem isOperators_quietFields (fields : Fields) :
    Fields.isOperators (quietFields fields) = Fields.isOperators fields := by
  rw [Fields.isOperators, Fields.isOperators, quietFields_eq_map, List.all_map, List.isEmpty_map]
  rfl

/-! ### Literals -/

mutual
/-- **A value and its quiet form have one literal.** -/
@[simp] theorem literal_quiet : ∀ v : Value, v.quiet.literal = v.literal
  | array items => by rw [quiet, literal, literal, literals_quiet items]
  | document fields => by rw [quiet, literal, literal, entries_quiet fields]
  | javaScriptWithScope code scope => by rw [quiet, literal, literal, entries_quiet scope]
  | decimal128 d => by rw [quiet, literal, literal, Decimal128.write_quiet]
  | null | bool _ | int32 _ | int64 _ | double _ | string _ | objectId _ | regex _ | dateTime _
  | binary _ | timestamp _ | symbol _ | javaScript _ | dbPointer _ _ | minKey | maxKey
  | undefined => rfl
@[simp] theorem literals_quiet : ∀ items : List Value, literals (quietItems items) = literals items
  | [] => rfl
  | v :: r => by rw [quietItems, literals, literals, literal_quiet v, literals_quiet r]
@[simp] theorem entries_quiet : ∀ fields : List (String × Value),
    entries (quietFields fields) = entries fields
  | [] => rfl
  | (k, v) :: r => by rw [quietFields, entries, entries, literal_quiet v, entries_quiet r]
end

/-! ### Expressions -/

theorem missing_quiet (fields : Fields) (slot : Slot) :
    missing (quietFields fields) slot = missing fields slot := by
  cases slot with
  | flags =>
    rw [missing, missing, get?_quietFields]
    cases Fields.get? fields "regex" with
    | none => rfl
    | some v => cases v <;> rfl
  | expression absent => cases absent <;> rfl
  | text | pattern | flag | literal | branches => rfl

theorem inOrder?_quiet (fields : Fields) (given : List (String × Option Code))
    (params : List Param) :
    inOrder? (quietFields fields) given params = inOrder? fields given params := by
  simp only [inOrder?, missing_quiet]

/-- Only a document with one field is more than a literal. -/
theorem expression_of_ne {v : Value} (h : ∀ op arg, v ≠ document [(op, arg)]) :
    v.expression = v.literal := by
  rw [expression]
  exact h

theorem expression_quiet_of_ne {v : Value} (h : ∀ op arg, v ≠ document [(op, arg)]) :
    v.quiet.expression = v.expression := by
  have hquiet : ∀ op arg, v.quiet ≠ document [(op, arg)] := by
    intro op arg heq
    cases v with
    | document fields =>
      have hlength := congrArg List.length (document.inj heq)
      rw [length_quietFields] at hlength
      obtain ⟨f, rfl⟩ := List.length_eq_one_iff.1 hlength
      exact h f.1 f.2 rfl
    | _ => exact absurd heq nofun
  rw [expression_of_ne hquiet, expression_of_ne h, literal_quiet]

mutual
/-- **A value and its quiet form are one expression.** -/
@[simp] theorem expression_quiet : ∀ v : Value, v.quiet.expression = v.expression
  | document [(op, arg)] => by
    rw [quiet, quietFields, quietFields, expression, expression, expression_quiet arg,
      literal_quiet arg]
    cases ExpressionOperator.find? op with
    | none => rfl
    | some spec =>
      dsimp only
      rw [operands?_quiet arg.expression spec.arity arg]
  | document [] | document (_ :: _ :: _) | array _ | javaScriptWithScope _ _ | decimal128 _ =>
    expression_quiet_of_ne fun _ _ => nofun
  | null | bool _ | int32 _ | int64 _ | double _ | string _ | objectId _ | regex _ | dateTime _
  | binary _ | timestamp _ | symbol _ | javaScript _ | dbPointer _ _ | minKey | maxKey
  | undefined => rfl
theorem expressions_quiet : ∀ items : List Value,
    expressions (quietItems items) = expressions items
  | [] => rfl
  | v :: r => by rw [quietItems, expressions, expressions, expression_quiet v, expressions_quiet r]
theorem operands?_quiet (own : Code) : ∀ (arity : Arity) (v : Value),
    operands? own arity v.quiet = operands? own arity v
  | .nullary, v | .unary, v => by rw [operands?, operands?]
  | .literal, v => by rw [operands?, operands?, literal_quiet]
  | .fixed count, v => by
    cases v with
    | array items => rw [quiet, operands?, operands?, length_quietItems, expressions_quiet items]
    | _ => rfl
  | .variadic, v => by
    cases v with
    | array items => rw [quiet, operands?, operands?, expressions_quiet items]
    | _ => rfl
  | .named params positional, v => by
    cases v with
    | array items => rw [quiet, operands?, operands?, length_quietItems, expressions_quiet items]
    | document fields =>
      rw [quiet, operands?, operands?, inOrder?_quiet, namedArguments_quiet params fields]
    | _ => rfl
theorem namedArguments_quiet (params : List Param) : ∀ fields : List (String × Value),
    namedArguments params (quietFields fields) = namedArguments params fields
  | [] => rfl
  | (key, v) :: r => by
    rw [quietFields, namedArguments, namedArguments, namedArguments_quiet params r]
    cases params.find? (·.name = key) with
    | none => rfl
    | some param =>
      dsimp only
      rw [expression_quiet v, slotCode?_quiet v.expression param.slot v]
theorem slotCode?_quiet (own : Code) : ∀ (slot : Slot) (v : Value),
    slotCode? own slot v.quiet = slotCode? own slot v
  | .expression _, v => by rw [slotCode?, slotCode?]
  | .literal, v => by rw [slotCode?, slotCode?, literal_quiet]
  | .text _, v | .flags, v | .pattern, v | .flag, v => by cases v <;> rfl
  | .branches, v => by
    cases v with
    | array items => rw [quiet, slotCode?, slotCode?, branches?_quiet items]
    | _ => rfl
theorem branches?_quiet : ∀ items : List Value, branches? (quietItems items) = branches? items
  | [] => rfl
  | v :: r => by
    cases v with
    | document fields =>
      rw [quietItems, quiet, branches?, branches?, branchParts_quiet fields, branches?_quiet r]
    | _ => rfl
theorem branchParts_quiet : ∀ fields : List (String × Value),
    branchParts (quietFields fields) = branchParts fields
  | [] => rfl
  | (key, v) :: r => by
    rw [quietFields, branchParts, branchParts, expression_quiet v, branchParts_quiet r]
end

end Value

/-! ### Predicates -/

namespace Predicate

open QueryScribe.Value

theorem givenFlags?_quiet (field : String) (operators : Fields) :
    givenFlags? field (quietFields operators) = givenFlags? field operators := by
  rw [givenFlags?, givenFlags?, get?_quietFields]
  cases operators.get? "$options" with
  | none => rfl
  | some v => cases v <;> rfl

theorem modulo_quiet (field : String) (v : Value) : modulo field v.quiet = modulo field v := by
  cases v with
  | array items =>
    match items with
    | [] | [_] | _ :: _ :: _ :: _ => rfl
    | [divisor, remainder] =>
      simp only [quiet, quietItems, modulo, toInteger?_quiet]
  | _ => rfl

theorem pattern_quiet (field : String) (given : Option String) (v : Value) :
    pattern field given v.quiet = pattern field given v := by
  cases v <;> rfl

theorem unknownOperator_quiet (fallback : Bool) (field operator : String) (v : Value) :
    unknownOperator fallback field operator v.quiet
      = unknownOperator fallback field operator v := by
  rw [unknownOperator, unknownOperator, literal_quiet]

theorem plainPair_quiet (key : String) (v : Value) : plainPair key v.quiet = plainPair key v := by
  unfold plainPair
  rw [expression_quiet, literal_quiet]
  cases v <;> rfl

theorem simpleOperator_quiet (field operator : String) (spec : FieldOperator)
    (given : Option String) (v : Value) :
    simpleOperator field operator spec given v.quiet
      = simpleOperator field operator spec given v := by
  unfold simpleOperator
  rw [literal_quiet, modulo_quiet, pattern_quiet, kind_quiet]
  cases spec.shape with
  | list =>
    cases v with
    | array items => simp only [quiet, literals_quiet]
    | _ => rfl
  | _ => rfl

theorem operators?_quiet (key : String) (v : Value) :
    operators? key v.quiet = (operators? key v).map quietFields := by
  cases v with
  | document operators =>
    rw [quiet, operators?, operators?, isOperators_quietFields]
    split
    · rfl
    · rfl
  | _ => rfl

theorem body?_quiet (operator : String) (v : Value) :
    body? operator v.quiet = (body? operator v).map quietFields := by
  cases v with
  | document fields =>
    rw [quiet, body?, body?, isOperators_quietFields]
    split
    · rfl
    · rfl
  | _ => rfl

theorem operatorTest_quiet (fallback : Bool) (field operator : String) (given : Option String)
    (v : Value) :
    operatorTest fallback field operator given v.quiet
      = operatorTest fallback field operator given v := by
  rw [operatorTest, operatorTest]
  cases FieldOperator.find? operator with
  | none => exact unknownOperator_quiet fallback field operator v
  | some spec =>
    have hsimple := simpleOperator_quiet field operator spec given v
    dsimp only
    cases spec.shape with
    | elements =>
      cases v with
      | document fields =>
        have hliteral := literal_quiet (document fields)
        rw [quiet] at hliteral ⊢
        dsimp only
        rw [hliteral]
      | _ => exact hsimple
    | _ => exact hsimple

mutual
/-- **A predicate and its quiet form are one condition.** -/
theorem conditions_quiet (fallback : Bool) : ∀ fields : List (String × Value),
    conditions fallback (quietFields fields) = conditions fallback fields
  | [] => rfl
  | (key, v) :: r => by
    rw [quietFields, conditions_cons, conditions_cons, conditions_quiet fallback r,
      pairConditions_quiet fallback key v]
theorem pairConditions_quiet (fallback : Bool) (key : String) (v : Value) :
    pairConditions fallback key v.quiet = pairConditions fallback key v := by
  rw [pairConditions, pairConditions]
  cases Connective.ofKey? key with
  | some connective =>
    cases v with
    | array items =>
      rw [quiet]
      dsimp only
      rw [alternatives_quiet fallback items]
    | _ => rfl
  | none =>
    dsimp only
    rw [operators?_quiet, plainPair_quiet]
    cases v with
    | document operators =>
      have hoperators : operators? key (document operators) = some operators
          ∨ operators? key (document operators) = none := by
        rw [operators?]
        split
        · exact .inl rfl
        · exact .inr rfl
      rcases hoperators with h | h
      · rw [h, Option.map_some]
        dsimp only
        rw [givenFlags?_quiet, any_quietFields operators (· = "$regex")]
        congr 1
        funext given
        exact fieldConditions_quiet fallback key given _ operators
      · rw [h]
        rfl
    | _ => rfl
theorem alternative_quiet (fallback : Bool) (v : Value) :
    alternative fallback v.quiet = alternative fallback v := by
  cases v with
  | document fields => rw [quiet, alternative, alternative, conditions_quiet fallback fields]
  | _ => rfl
theorem alternatives_quiet (fallback : Bool) : ∀ items : List Value,
    alternatives fallback (quietItems items) = alternatives fallback items
  | [] => rfl
  | v :: r => by
    rw [quietItems, alternatives, alternatives, alternative_quiet fallback v,
      alternatives_quiet fallback r]
theorem fieldConditions_quiet (fallback : Bool) (field : String) (given : Option String)
    (beside : Bool) : ∀ operators : List (String × Value),
    fieldConditions fallback field given beside (quietFields operators)
      = fieldConditions fallback field given beside operators
  | [] => rfl
  | (operator, v) :: r => by
    rw [quietFields, fieldConditions_cons, fieldConditions_cons,
      fieldConditions_quiet fallback field given beside r,
      operatorCondition_quiet fallback field operator given v]
theorem operatorCondition_quiet (fallback : Bool) (field operator : String)
    (given : Option String) (v : Value) :
    operatorCondition fallback field operator given v.quiet
      = operatorCondition fallback field operator given v := by
  rw [operatorCondition, operatorCondition, body?_quiet, operatorTest_quiet]
  cases v with
  | document fields =>
    have hbody : body? operator (document fields) = some fields
        ∨ body? operator (document fields) = none := by
      rw [body?]
      split
      · exact .inl rfl
      · exact .inr rfl
    rcases hbody with h | h
    · rw [h, Option.map_some]
      dsimp only
      rw [conditions_quiet fallback fields]
    · rw [h]
      rfl
  | _ => rfl
end

end Predicate

/-! ### Pipelines -/

namespace Pipeline

open QueryScribe.Value QueryScribe.Predicate

theorem fields_quiet (operator : String) (v : Value) :
    fields operator v.quiet = (fields operator v).map quietFields := by
  cases v <;> rfl

/-- Calls on the fields of a stage that see no more of a field than its code. -/
theorem map_quietFields {f : String × Value → Code} (h : ∀ k v, f (k, v.quiet) = f (k, v))
    (fields : Fields) : (quietFields fields).map f = fields.map f := by
  rw [quietFields_eq_map, List.map_map]
  exact List.map_congr_left fun field _ => h field.1 field.2

theorem fieldCall_quiet (builder key : String) (v : Value) :
    fieldCall builder (key, v.quiet) = fieldCall builder (key, v) := by
  rw [fieldCall, fieldCall, expression_quiet]

theorem addFields_quiet (name operator : String) (v : Value) :
    addFields name operator v.quiet = addFields name operator v := by
  rw [addFields, addFields, fields_quiet]
  cases fields operator v with
  | error e => rfl
  | ok added =>
    show Except.ok _ = Except.ok _
    rw [map_quietFields (fieldCall_quiet "AddField")]

theorem listed_quiet (name operator : String) (v : Value) :
    listed name operator v.quiet = listed name operator v := by
  rw [listed, listed, fields_quiet]
  cases fields operator v with
  | error e => rfl
  | ok listed =>
    show Except.ok _ = Except.ok _
    rw [map_quietFields fun k v => by dsimp only; rw [literal_quiet]]

theorem group_quiet (v : Value) : group v.quiet = group v := by
  rw [group, group, fields_quiet]
  cases fields "$group" v with
  | error e => rfl
  | ok grouped =>
    have hkept : (quietFields grouped).filter (·.1 ≠ "_id")
        = quietFields (grouped.filter (·.1 ≠ "_id")) := by
      rw [quietFields_eq_map, quietFields_eq_map, List.filter_map]
      rfl
    show Except.ok _ = Except.ok _
    rw [hkept, map_quietFields (fieldCall_quiet "GroupAcc"), get?_quietFields]
    cases grouped.get? "_id" with
    | none => rfl
    | some u =>
      rw [Option.map_some]
      dsimp only
      rw [expression_quiet]

theorem counted_quiet (name operator : String) (v : Value) :
    counted name operator v.quiet = counted name operator v := by
  rw [counted, counted, toInteger?_quiet, kind_quiet]

theorem raw_quiet (operator : String) (v : Value) : raw operator v.quiet = raw operator v := by
  rw [raw, raw, literal_quiet]

theorem named_quiet (name operator : String) (v : Value) :
    named name operator v.quiet = named name operator v := by
  have hraw := raw_quiet operator v
  cases v with
  | string s => rfl
  | _ => exact hraw

theorem textOf_quiet (key : String) (fields : Fields) :
    textOf key (quietFields fields) = textOf key fields := by
  rw [textOf, textOf, get?_quietFields]
  cases fields.get? key with
  | none => rfl
  | some v =>
    rw [Option.map_some, Option.bind_some, Option.bind_some, toString?_quiet]

theorem out_quiet (v : Value) : out v.quiet = out v := by
  have hnamed := named_quiet "Out" "$out" v
  cases v with
  | document fields => rw [quiet, out, out, textOf_quiet, textOf_quiet]
  | _ => exact hnamed

theorem matching_quiet (fallback : Bool) (v : Value) :
    matching fallback v.quiet = matching fallback v := by
  cases v with
  | document fields =>
    rw [quiet, matching, matching, condition, condition, conditions_quiet]
  | _ => rfl

theorem stage_quiet (fallback : Bool) (operator : String) (v : Value) :
    stage fallback operator v.quiet = stage fallback operator v := by
  unfold stage
  simp only [matching_quiet, addFields_quiet, listed_quiet, group_quiet, counted_quiet, named_quiet,
    literal_quiet, out_quiet, raw_quiet]

theorem stageOf_quiet (fallback : Bool) (v : Value) :
    stageOf fallback v.quiet = stageOf fallback v := by
  cases v with
  | document fields =>
    match fields with
    | [] => rfl
    | [(operator, value)] => exact stage_quiet fallback operator value
    | f :: g :: r =>
      have hcrowded (f g : String × Value) (r : Fields) : stageOf fallback (.document (f :: g :: r))
          = refuse (.crowdedStage (r.length + 2)) := rfl
      rw [quiet, quietFields, quietFields, hcrowded, hcrowded, length_quietFields]
  | _ => rfl

/-- **A pipeline and its quiet form have the same calls.** -/
theorem links_quiet (fallback : Bool) (stages : List Value) :
    links fallback (quietItems stages) = links fallback stages := by
  have hcalls : (quietItems stages).mapM (stageOf fallback) = stages.mapM (stageOf fallback) := by
    induction stages with
    | nil => rfl
    | cons v r ih => rw [quietItems, List.mapM_cons, List.mapM_cons, stageOf_quiet, ih]
  rw [links, links, hcalls]

end Pipeline

/-! ### Queries -/

/-- **A value and its quiet form have the same code**, or are refused for the same reason. -/
theorem Query.ofValue_quiet (o : Options) (v : Value) : ofValue o v.quiet = ofValue o v := by
  cases v with
  | array stages =>
    rw [Value.quiet, ofValue, ofValue, ofPipeline, ofPipeline, Pipeline.links_quiet]
  | document fields =>
    rw [Value.quiet, ofValue, ofValue, ofFilter, ofFilter, Predicate.links, Predicate.links,
      Predicate.conditions_quiet]
  | _ => rfl

end QueryScribe
