import QueryScribe.Proofs.Predicate.Derivation
import QueryScribe.Query

/-!
# The fallback to raw conditions

With the fallback an operator without a builder becomes a raw condition, where without it
the translation stops.  `Extends strict bold` says how two such runs compare.  The bold one
never stops at an operator without a builder, and it ends as the strict one does unless
that one stops there.  This goes through steps in sequence (`Extends.bind`): up to the first
such operator both runs have made the same conditions and have met the same faults, so what
comes first in the one comes first in the other.  `extends_conditions` is the induction over
the places of a predicate; a pipeline adds its `$match` stages, and the layout sees the same
calls.
-/

namespace QueryScribe.Predicate

open QueryScribe.Code QueryScribe.Value QueryScribe.Outcome

/-! ### Two runs -/

/-- A run that ends as a strict one does, unless that one stops at an operator without a builder. -/
structure Extends {α : Type} (strict bold : Result α) : Prop where
  agrees : bold = strict ∨ ∃ operator, strict = .error (.unsupported operator)
  bears : ∀ operator, bold ≠ .error (.unsupported operator)

section Extends

variable {α β : Type}

theorem extends_ok (a : α) : Extends (.ok a : Result α) (.ok a) := ⟨.inl rfl, nofun⟩

theorem extends_refuse (f : RuleFault) : Extends (refuse f : Result α) (refuse f) :=
  ⟨.inl rfl, nofun⟩

theorem Extends.bind {x y : Result α} {f g : α → Result β} (h : Extends x y)
    (hf : ∀ a, Extends (f a) (g a)) : Extends (x >>= f) (y >>= g) := by
  constructor
  · rcases h.agrees with rfl | ⟨operator, rfl⟩
    · cases y with
      | error e => exact .inl rfl
      | ok a => exact (hf a).agrees
    · exact .inr ⟨operator, rfl⟩
  · intro operator
    cases y with
    | error e =>
      intro (he : Except.error e = _)
      cases he
      exact h.bears operator rfl
    | ok a => exact (hf a).bears operator

theorem Extends.map {x y : Result α} (h : Extends x y) (f : α → β) :
    Extends (x.map f) (y.map f) := by
  have := h.bind fun a => extends_ok (f a)
  cases x <;> cases y <;> exact this

theorem extends_mapM {f g : α → Result β} (h : ∀ a, Extends (f a) (g a)) (as : List α) :
    Extends (as.mapM f) (as.mapM g) := by
  induction as with
  | nil => exact extends_ok []
  | cons a r ih =>
    rw [List.mapM_cons, List.mapM_cons]
    refine (h a).bind ?_
    intro b
    refine ih.bind ?_
    intro bs
    exact extends_ok (b :: bs)

end Extends

/-! ### Single tests -/

theorem extends_givenFlags (field : String) (operators : Fields) :
    Extends (givenFlags? field operators) (givenFlags? field operators) := by
  unfold givenFlags?
  split
  · exact extends_ok _
  · exact extends_ok _
  · exact extends_refuse _

theorem extends_modulo (field : String) (value : Value) :
    Extends (modulo field value) (modulo field value) := by
  unfold modulo
  split
  · split
    · exact extends_ok _
    · exact extends_refuse _
  · exact extends_refuse _

theorem extends_pattern (field : String) (given : Option String) (value : Value) :
    Extends (pattern field given value) (pattern field given value) := by
  unfold pattern
  split
  · exact extends_ok _
  · exact extends_ok _
  · exact extends_refuse _

theorem extends_plainPair (key : String) (value : Value) :
    Extends (plainPair key value) (plainPair key value) := by
  rw [plainPair.eq_def]
  by_cases he : key = "$expr"
  · rw [if_pos he]
    exact extends_ok _
  rw [if_neg he]
  by_cases hw : key = "$where"
  · rw [if_pos hw]
    cases value with
    | string s => exact extends_ok _
    | javaScript s => exact extends_ok _
    | _ => exact extends_refuse _
  rw [if_neg hw]
  by_cases hs : key = "$jsonSchema"
  · rw [if_pos hs]
    exact extends_ok _
  · rw [if_neg hs]
    exact extends_ok _

theorem extends_simpleOperator (field operator : String) (spec : FieldOperator)
    (given : Option String) (value : Value) :
    Extends (simpleOperator field operator spec given value)
      (simpleOperator field operator spec given value) := by
  unfold simpleOperator
  split
  · exact extends_ok _
  · split
    · exact extends_ok _
    · exact extends_refuse _
  · exact (extends_modulo field value).map _
  · exact (extends_pattern field given value).map _
  · exact extends_refuse _

/-- Only here do the two runs part. -/
theorem extends_operatorTest (field operator : String) (given : Option String) (value : Value) :
    Extends (operatorTest false field operator given value)
      (operatorTest true field operator given value) := by
  unfold operatorTest
  cases FieldOperator.find? operator with
  | none => exact ⟨.inr ⟨operator, rfl⟩, nofun⟩
  | some spec =>
    dsimp only
    split
    · exact extends_ok _
    · exact extends_simpleOperator field operator spec given _

/-! ### Places -/

theorem extends_pairConditions {key : String} {value : Value}
    (hitems : ∀ items, value = .array items →
      Extends (alternatives false items) (alternatives true items))
    (hoperators : ∀ given beside operators, value = .document operators →
      Extends (fieldConditions false key given beside operators)
        (fieldConditions true key given beside operators)) :
    Extends (pairConditions false key value) (pairConditions true key value) := by
  unfold pairConditions
  cases Connective.ofKey? key with
  | some connective =>
    cases value with
    | array items => exact (hitems items rfl).map _
    | _ => exact extends_refuse _
  | none =>
    dsimp only
    cases ho : operators? key value with
    | none => exact (extends_plainPair key value).map _
    | some operators =>
      refine (extends_givenFlags key operators).bind ?_
      intro given
      exact hoperators given _ operators (eq_document_of_operators ho)

theorem extends_operatorCondition {operator : String} {value : Value} (field : String)
    (given : Option String)
    (hbody : ∀ fields, value = .document fields →
      Extends (conditions false fields) (conditions true fields)) :
    Extends (operatorCondition false field operator given value)
      (operatorCondition true field operator given value) := by
  unfold operatorCondition
  cases hb : body? operator value with
  | none => exact extends_operatorTest field operator given value
  | some fields => exact (hbody fields (eq_document_of_body hb)).map _

/-- **At every place** the run with the fallback extends the one without. -/
theorem extends_conditions (place : Place) :
    Extends (place.conditions false) (place.conditions true) := by
  induction place using place_induction with
  | noPairs =>
    simp only [Place.conditions, conditions]
    exact extends_ok []
  | pair key value r hitems hoperators hr =>
    simp only [Place.conditions] at hitems hoperators hr ⊢
    rw [conditions_cons, conditions_cons]
    refine (extends_pairConditions hitems hoperators).bind ?_
    intro first
    exact hr.map (first ++ ·)
  | noDocuments =>
    simp only [Place.conditions, alternatives]
    exact extends_ok []
  | document value items hfields hitems =>
    simp only [Place.conditions] at hfields hitems ⊢
    rw [alternatives, alternatives]
    have first : Extends (alternative false value) (alternative true value) := by
      cases value with
      | document fields => exact (hfields fields rfl).map _
      | _ => exact extends_refuse _
    refine first.bind ?_
    intro c
    exact hitems.map (c :: ·)
  | noOperators field given beside =>
    simp only [Place.conditions, fieldConditions]
    exact extends_ok []
  | operator field given beside operator value r hbody hr =>
    simp only [Place.conditions] at hbody hr ⊢
    rw [fieldConditions_cons, fieldConditions_cons]
    by_cases hf : operator = "$options" ∧ beside = true
    · rw [if_pos hf, if_pos hf]
      exact hr
    · rw [if_neg hf, if_neg hf]
      refine (extends_operatorCondition field given hbody).bind ?_
      intro c
      exact hr.map (c :: ·)

end Predicate

/-! ### Pipelines -/

namespace Pipeline

open QueryScribe.Predicate

theorem extends_fields (operator : String) (value : Value) :
    Extends (fields operator value) (fields operator value) := by
  cases value with
  | document fields => exact extends_ok fields
  | _ => exact extends_refuse _

theorem extends_counted (name operator : String) (value : Value) :
    Extends (counted name operator value) (counted name operator value) := by
  unfold counted
  split
  · exact extends_ok _
  · exact extends_refuse _

theorem extends_matching (value : Value) :
    Extends (matching false value) (matching true value) := by
  cases value with
  | document predicate =>
    refine ((extends_conditions (.pairs predicate)).map _).bind ?_
    intro c
    exact extends_ok _
  | _ => exact extends_refuse _

/-- A stage that adds fields or lists them, or groups, stops only where it is given no document. -/
theorem extends_ofFields {α : Type} (operator : String) (value : Value) (f : Fields → α) :
    Extends (do return f (← fields operator value)) (do return f (← fields operator value)) := by
  refine (extends_fields operator value).bind ?_
  intro given
  exact extends_ok (f given)

theorem extends_stage (operator : String) (value : Value) :
    Extends (stage false operator value) (stage true operator value) := by
  unfold stage
  split
  · exact extends_matching value
  · exact extends_ofFields _ value _
  · exact extends_ofFields _ value _
  · exact extends_ofFields _ value _
  · exact extends_ofFields _ value _
  · exact extends_ofFields _ value _
  · exact extends_counted _ _ value
  · exact extends_counted _ _ value
  · exact extends_ok _
  · exact extends_ok _
  · exact extends_ok _
  · exact extends_ok _
  · exact extends_ok _
  · exact extends_ok _

theorem extends_stageOf (value : Value) : Extends (stageOf false value) (stageOf true value) := by
  unfold stageOf
  split
  · exact extends_refuse _
  · exact extends_stage _ _
  · exact extends_refuse _
  · exact extends_refuse _

theorem extends_links (stages : List Value) : Extends (links false stages) (links true stages) := by
  refine (extends_mapM extends_stageOf stages).bind ?_
  intro calls
  exact extends_ok _

end Pipeline

/-! ### Queries -/

namespace Query

open QueryScribe.Predicate

def withFallback (o : Options) (fallback : Bool) : Options :=
  { o with rawFilterFallback := fallback }

/-- The layout sees the same calls in both runs, and refuses them for the same fault if it does. -/
theorem write_extends (o : Options) {strict bold : Predicate.Result (List Code)}
    (h : Extends strict bold) :
    (write (withFallback o true) bold = write (withFallback o false) strict
        ∨ ∃ operator, write (withFallback o false) strict = .error (.unsupported operator))
      ∧ ∀ operator, write (withFallback o true) bold ≠ .error (.unsupported operator) := by
  constructor
  · rcases h.agrees with rfl | ⟨operator, rfl⟩
    · exact .inl rfl
    · exact .inr ⟨operator, rfl⟩
  · intro operator
    cases bold with
    | ok links =>
      rw [write, formatCode]
      split
      · exact nofun
      · exact nofun
    | error e =>
      cases e with
      | fault f => exact nofun
      | unsupported name => exact absurd rfl (h.bears name)

theorem ofValue_extends (o : Options) (v : Value) :
    (ofValue (withFallback o true) v = ofValue (withFallback o false) v
        ∨ ∃ operator, ofValue (withFallback o false) v = .error (.unsupported operator))
      ∧ ∀ operator, ofValue (withFallback o true) v ≠ .error (.unsupported operator) := by
  cases v with
  | array stages => exact write_extends o (Pipeline.extends_links stages)
  | document fields => exact write_extends o ((extends_conditions (.pairs fields)).map _)
  | _ => exact ⟨.inl rfl, nofun⟩

/-- **The fallback only adds code.**  Where a value has code without the fallback it has the same
code with it, and where it is refused for anything but an operator without a builder it is
refused for the same with it.  With the fallback no such operator is a reason to refuse. -/
theorem fallback_conservative (o : Options) (v : Value) :
    (∀ code, ofValue (withFallback o false) v = .ok code →
        ofValue (withFallback o true) v = .ok code)
      ∧ (∀ e, ofValue (withFallback o false) v = .error e →
        (∀ operator, e ≠ .unsupported operator) → ofValue (withFallback o true) v = .error e)
      ∧ ∀ operator, ofValue (withFallback o true) v ≠ .error (.unsupported operator) := by
  obtain ⟨hagrees, hbears⟩ := ofValue_extends o v
  refine ⟨?code, ?error, hbears⟩
  case code =>
    intro code hcode
    rcases hagrees with h | ⟨operator, h⟩
    · rw [h, hcode]
    · rw [hcode] at h
      exact absurd h nofun
  case error =>
    intro e he hne
    rcases hagrees with h | ⟨operator, h⟩
    · rw [h, he]
    · rw [he, Except.error.injEq] at h
      exact absurd h (hne operator)

/-- A test in a `$match` stage, and an operator without a builder behind a broken rule in the body
of an `$elemMatch`. -/
theorem fallback_conservative_elements :
    ofValue (withFallback .standard true)
        (.array [.document [("$match", .document [("a", .document [("$gt", .null)])])]])
      = .ok "gmqb.NewPipeline().\n\tMatch(gmqb.Gt(\"a\", nil))"
    ∧ ofValue (withFallback .standard true) (.document [("a", .document [("$elemMatch",
        .document [("b", .document [("$in", .null)]), ("c", .document [("$near", .null)])])])])
      = .error (.rule (.listNotArray "$in" "b" "null")) := by
  obtain ⟨hcode, _, _⟩ := fallback_conservative .standard
    (.array [.document [("$match", .document [("a", .document [("$gt", .null)])])]])
  obtain ⟨_, herror, _⟩ := fallback_conservative .standard (.document [("a", .document
    [("$elemMatch", .document [("b", .document [("$in", .null)]),
      ("c", .document [("$near", .null)])])])])
  exact ⟨hcode _ (by decide +kernel), herror _ rfl nofun⟩

end Query

end QueryScribe
