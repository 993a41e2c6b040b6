import QueryScribe.Proofs.Expression.Operands
import QueryScribe.Query

/-!
# Fields without a place

A document of named arguments may have fields that its operator does not name.  They leave no
trace: the code is that of the document without them, and so it is with the fields beside the two
parts of a branch and with those of an output stage that name neither a database nor a
collection (`leftover_fields_leave_no_trace`).  So two queries that differ may have the same
code.
-/

namespace QueryScribe

open QueryScribe.Code

namespace Fields

/-- The fields with some keys. -/
def only (keys : List String) (fields : Fields) : Fields := fields.filter fun f => keys.contains f.1

theorem lookup_only {keys : List String} {key : String} (h : key ∈ keys) (fields : Fields) :
    (fields.only keys).lookup key = fields.lookup key := by
  rw [only, ← List.filterMap_eq_filter, Outcome.lookup_filterMap (g := id) ?_ ?_, Option.map_id, id]
  · exact fun v => Option.guard_eq_some_iff.2 ⟨rfl, List.contains_iff_mem.2 h⟩
  · intro f f' hguard
    rw [(Option.guard_eq_some_iff.1 hguard).1]

end Fields

namespace Value

/-! ### Documents without leftover fields -/

/-- A branch without the fields beside its two parts. -/
def bareBranch : Value → Value
  | document fields => document (Fields.only ["case", "then"] fields)
  | v => v

/-- The value of a slot, of which the branches have nothing beside their parts. -/
def bareValue : Slot → Value → Value
  | .branches, array items => array (items.map bareBranch)
  | _, v => v

/-- The named arguments among the fields, and nothing else. -/
def bareFields (params : List Param) (fields : Fields) : Fields :=
  fields.filterMap fun (key, v) =>
    (params.find? (·.name = key)).map fun param => (key, bareValue param.slot v)

theorem branch_bareBranch {v : Value} {c : Code} : Branch (bareBranch v) c ↔ Branch v c := by
  cases v with
  | document fields =>
    have hcase := @Fields.lookup_only ["case", "then"] "case" (by simp) fields
    have hthen := @Fields.lookup_only ["case", "then"] "then" (by simp) fields
    constructor
    · intro h
      cases h with
      | parts h h' => exact .parts (hcase ▸ h) (hthen ▸ h')
    · intro h
      cases h with
      | parts h h' => exact .parts (hcase ▸ h) (hthen ▸ h')
  | _ => rfl

theorem fills_bareValue {slot : Slot} {v : Value} {c : Code} :
    Fills slot (bareValue slot v) c ↔ Fills slot v c := by
  cases slot with
  | branches =>
    cases v with
    | array items =>
      have hbranches {codes : List Code} :
          (items.map bareBranch).Forall₂ Branch codes ↔ items.Forall₂ Branch codes := by
        rw [List.forall₂_map_left_iff]
        simp only [branch_bareBranch]
      constructor
      · intro h
        cases h with
        | branches h => exact .branches (hbranches.1 h)
      · intro h
        cases h with
        | branches h => exact .branches (hbranches.2 h)
    | _ => rfl
  | _ => rfl

theorem lookup_bareFields {params : List Param} {param : Param}
    (h : params.find? (·.name = param.name) = some param) (fields : Fields) :
    (bareFields params fields).lookup param.name
      = (fields.lookup param.name).map (bareValue param.slot) := by
  refine Outcome.lookup_filterMap (fun v => by dsimp only; rw [h]; rfl) (fun f f' hturn => ?_) fields
  obtain ⟨_, _, rfl⟩ := Option.map_eq_some_iff.1 hturn
  rfl

/-! ### Nothing of them is left -/

/-- Where flags are asked for, they are those of a regular expression beside them. -/
theorem find?_regex {op : String} {spec : ExpressionOperator}
    (h : ExpressionOperator.find? op = some spec) {param : Param} (hp : param ∈ spec.arity.params)
    (hflags : param.slot = .flags) :
    spec.arity.params.find? (·.name = "regex") = some ⟨"regex", .pattern⟩ := by
  have hall := ExpressionOperator.of_find? (P := fun _ spec => spec.arity.params.all fun param =>
    param.slot != .flags
      || spec.arity.params.find? (·.name = "regex") == some ⟨"regex", .pattern⟩)
    (by decide +kernel) h
  have := List.all_eq_true.1 hall param hp
  rw [hflags] at this
  simpa using this

theorem missing_bareFields {params : List Param} {slot : Slot}
    (h : slot = .flags → params.find? (·.name = "regex") = some ⟨"regex", .pattern⟩)
    (fields : Fields) : missing (bareFields params fields) slot = missing fields slot := by
  cases slot with
  | flags =>
    have hlookup := @lookup_bareFields params ⟨"regex", .pattern⟩ (h rfl) fields
    have hsame : (fields.lookup "regex").map (bareValue .pattern) = fields.lookup "regex" := by
      cases fields.lookup "regex" <;> rfl
    rw [missing, missing, Fields.get?, Fields.get?, hlookup, hsame]
  | expression absent => cases absent <;> rw [missing, missing]
  | _ => rw [missing, missing]

theorem given_bareFields {params : List Param} {param : Param}
    (h : params.find? (·.name = param.name) = some param)
    (hflags : param.slot = .flags → params.find? (·.name = "regex") = some ⟨"regex", .pattern⟩)
    {fields : Fields} {c : Code} :
    Given (bareFields params fields) param c ↔ Given fields param c := by
  have hlookup := lookup_bareFields h fields
  have hmissing := missing_bareFields hflags fields
  constructor
  · intro hgiven
    cases hgiven with
    | absent hnone =>
      rw [hlookup, Option.map_eq_none_iff] at hnone
      rw [hmissing]
      exact .absent hnone
    | present hsome hc =>
      rw [hlookup] at hsome
      obtain ⟨v, hv, rfl⟩ := Option.map_eq_some_iff.1 hsome
      exact .present hv (fills_bareValue.1 hc)
  · intro hgiven
    cases hgiven with
    | absent hnone =>
      rw [← hmissing]
      exact .absent (by rw [hlookup, hnone]; rfl)
    | present hsome hc =>
      exact .present (by rw [hlookup, hsome]; rfl) (fills_bareValue.2 hc)

section Operator

variable {op : String} {spec : ExpressionOperator} (hop : ExpressionOperator.find? op = some spec)
  {params : List Param} {positional : Bool} (hnamed : spec.arity = .named params positional)
include hop hnamed

/-- **An operator carries the same operands without its leftover fields.** -/
theorem carries_bareFields {fields : Fields} {args : List Code} :
    Carries spec.arity (document (bareFields params fields)) args
      ↔ Carries spec.arity (document fields) args := by
  have hn := ExpressionOperator.params_nodup hop
  have hregex {param : Param} := @find?_regex op spec hop param
  rw [hnamed] at hn hregex ⊢
  have hgiven : ∀ param ∈ params, ∀ c,
      Given (bareFields params fields) param c ↔ Given fields param c :=
    fun param hp c => given_bareFields (find?_param hn hp) (hregex hp)
  have hall : params.Forall₂ (Given (bareFields params fields)) args
      ↔ params.Forall₂ (Given fields) args := Outcome.forall₂_congr hgiven
  constructor
  · intro h
    cases h with
    | named _ h => exact .named positional (hall.1 h)
  · intro h
    cases h with
    | named _ h => exact .named positional (hall.2 h)

end Operator

/-- The argument of an operator without the fields that the operator does not name. -/
def bareArgument (op : String) (arg : Value) : Value :=
  match ExpressionOperator.find? op, arg with
  | some ⟨_, .named params _⟩, document fields => document (bareFields params fields)
  | _, arg => arg

/-- An operator carries the same operands without its leftover fields. -/
theorem carries_bareArgument {op : String} {spec : ExpressionOperator}
    (hop : ExpressionOperator.find? op = some spec) (arg : Value) (args : List Code) :
    Carries spec.arity (bareArgument op arg) args ↔ Carries spec.arity arg args := by
  rw [bareArgument.eq_def, hop]
  split
  · rename_i hspec
    cases hspec
    exact carries_bareFields hop rfl
  · rfl

theorem out_only (fields : Fields) :
    Pipeline.out (document (Fields.only ["db", "coll"] fields))
      = Pipeline.out (document fields) := by
  rw [Pipeline.out, Pipeline.out, Pipeline.textOf, Pipeline.textOf, Pipeline.textOf,
    Pipeline.textOf, Fields.get?, Fields.get?, Fields.get?, Fields.get?,
    Fields.lookup_only (by simp), Fields.lookup_only (by simp)]

/-- **Leftover fields leave no trace.**  Unless an operator is kept as it is, its code is that
without the fields that it does not name, and it is kept as it is with them just when it is
without them.  In a branch only the two parts count, and in the document of an output stage only
the names of the database and the collection. -/
theorem leftover_fields_leave_no_trace (op : String) (arg : Value) :
    (expression (document [(op, arg)]) = expression (document [(op, bareArgument op arg)])
        ∨ expression (document [(op, arg)]) = rawPair op (literal arg)
          ∧ expression (document [(op, bareArgument op arg)])
            = rawPair op (literal (bareArgument op arg)))
      ∧ (∀ v c, Branch (bareBranch v) c ↔ Branch v c)
      ∧ ∀ fields, Pipeline.out (document (Fields.only ["db", "coll"] fields))
        = Pipeline.out (document fields) := by
  refine ⟨?_, fun v c => branch_bareBranch, out_only⟩
  cases hop : ExpressionOperator.find? op with
  | none =>
    have hsame : bareArgument op arg = arg := by
      rw [bareArgument.eq_def, hop]
    exact .inl (by rw [hsame])
  | some spec =>
    have hcarries := carries_bareArgument hop arg
    by_cases h : ∃ args, Carries spec.arity arg args
    · obtain ⟨args, hargs⟩ := h
      rw [expression_of_carries hop hargs, expression_of_carries hop ((hcarries args).2 hargs)]
      exact .inl rfl
    · refine .inr ⟨(expression_eq_rawPair_iff hop).2 h, (expression_eq_rawPair_iff hop).2 ?_⟩
      rintro ⟨args, hargs⟩
      exact h ⟨args, (hcarries args).1 hargs⟩

/-- **A field that the query has is missing from its code.**  The size of the bins, which the
operator does not name, changes neither the code of the operator nor that of the pipeline. -/
theorem leftover_fields_binSize :
    "binSize" ∉ ExpressionOperator.dateTruncParams.map (·.name)
      ∧ expression (document [("$dateTrunc", document [("date", .string "$d"),
          ("unit", .string "hour"), ("binSize", .int32 2)])])
        ≠ rawPair "$dateTrunc" (literal (document [("date", .string "$d"),
          ("unit", .string "hour"), ("binSize", .int32 2)]))
      ∧ Query.ofPipeline .standard [document [("$addFields", document [("x",
          document [("$dateTrunc", document [("date", .string "$d"), ("unit", .string "hour"),
            ("binSize", .int32 2)])])])]]
        = .ok ("gmqb.NewPipeline().\n\tAddFields(gmqb.AddFieldsSpec("
          ++ "\n\t\tgmqb.AddField(\"x\", gmqb.ExprDateTrunc(\"$d\", \"hour\")),\n\t))") := by
  refine ⟨by decide, ?_, by decide +kernel⟩
  have hop : ExpressionOperator.find? "$dateTrunc"
      = some ⟨"ExprDateTrunc", .named ExpressionOperator.dateTruncParams false⟩ := by
    decide +kernel
  intro hraw
  refine (expression_eq_rawPair_iff hop).1 hraw ⟨_, .named false
    (.cons (.present rfl (.expression _ _)) (.cons (.present rfl (.text _ _)) .nil))⟩

end Value

end QueryScribe
