import Mathlib.Data.List.Nodup
import QueryScribe.Builder.Expression
import QueryScribe.Proofs.Outcome

/-!
# The operands of an expression

`Carries` says which arguments the builder of an operator gets for the argument that the
operator has in a query, one case for each arity: the code of each part alone, in the order of
the table.  The table leaves no choice, since no operator names a parameter twice, and so the
relation is just what `operands?` computes (`operands?_eq_some_iff`).  An operator of the
table is a call with the operands that it carries, or the pair of its name and the
literal of its argument when it carries none (`expression_operator`).
-/

namespace QueryScribe

namespace Arity

def params : Arity → List Param
  | .named params _ => params
  | _ => []

end Arity

namespace ExpressionOperator

/-- A fact about all operators is tried on the table. -/
theorem of_find? {P : String → ExpressionOperator → Bool}
    (hall : table.all (fun entry => P entry.1 entry.2) = true) {op : String}
    {spec : ExpressionOperator} (h : find? op = some spec) : P op spec = true :=
  List.all_eq_true.1 hall _ (Outcome.mem_of_lookup h)

/-- No operator names a parameter twice. -/
theorem params_nodup {op : String} {spec : ExpressionOperator} (h : find? op = some spec) :
    (spec.arity.params.map (·.name)).Nodup := by
  have := of_find? (P := fun _ spec => decide (spec.arity.params.map (·.name)).Nodup)
    (by decide +kernel) h
  exact of_decide_eq_true this

theorem isOperator_of_find? {op : String} {spec : ExpressionOperator} (h : find? op = some spec) :
    Value.isOperator op = true :=
  of_find? (P := fun op _ => Value.isOperator op) (by decide +kernel) h

/-- **Different operators have different builders.** -/
theorem builder_injective {op op' : String} {spec spec' : ExpressionOperator}
    (h : find? op = some spec) (h' : find? op' = some spec')
    (hb : spec.builder = spec'.builder) : op = op' := by
  have hnodup : (table.map (·.2.builder)).Nodup := by decide +kernel
  have := List.inj_on_of_nodup_map hnodup (Outcome.mem_of_lookup h) (Outcome.mem_of_lookup h') hb
  exact (Prod.mk.inj this).1

end ExpressionOperator

namespace Value

open QueryScribe.Code

/-! ### What stands for a value -/

/-- A branch of a case distinction and its code: the first of its two parts each. -/
inductive Branch : Value → Code → Prop
  | parts {fields : Fields} {case consequence : Value} (hcase : fields.lookup "case" = some case)
      (hthen : fields.lookup "then" = some consequence) :
      Branch (document fields)
        (.group .curly [part "Case" (expression case), part "Then" (expression consequence)] [])

/-- The code that fills a slot for a value. -/
inductive Fills : Slot → Value → Code → Prop
  | expression (absent : Option String) (v : Value) : Fills (.expression absent) v (expression v)
  | literal (v : Value) : Fills .literal v (literal v)
  | text (absent s : String) : Fills (.text absent) (.string s) (.quoted s)
  | flags (s : String) : Fills .flags (.string s) (.quoted s)
  | pattern (s : String) : Fills .pattern (.string s) (.quoted s)
  | regex (re : Regex) : Fills .pattern (.regex re) (.quoted re.pattern)
  | flag (b : Bool) : Fills .flag (.bool b) (.word (if b then "true" else "false"))
  | branches {items : List Value} {codes : List Code} (h : items.Forall₂ Branch codes) :
      Fills .branches (.array items) (branchesCode codes)

/-- The code of a named argument: what its first field gives, or what stands for it when it is
absent. -/
inductive Given (fields : Fields) (param : Param) : Code → Prop
  | absent (h : fields.lookup param.name = none) : Given fields param (missing fields param.slot)
  | present {v : Value} {c : Code} (h : fields.lookup param.name = some v)
      (hc : Fills param.slot v c) : Given fields param c

/-- The arguments that a builder gets for the argument of its operator. -/
inductive Carries : Arity → Value → List Code → Prop
  | nullary (arg : Value) : Carries .nullary arg []
  | unary (arg : Value) : Carries .unary arg [expression arg]
  | literal (arg : Value) : Carries .literal arg [arg.literal]
  | fixed (items : List Value) :
      Carries (.fixed items.length) (.array items) (items.map expression)
  | lone {arg : Value} (h : ∀ items, arg ≠ .array items) : Carries (.fixed 1) arg [expression arg]
  | variadic (items : List Value) : Carries .variadic (.array items) (items.map expression)
  | named {params : List Param} (positional : Bool) {fields : Fields} {args : List Code}
      (h : params.Forall₂ (Given fields) args) :
      Carries (.named params positional) (.document fields) args
  | positional {params : List Param} {items : List Value} (h : items.length = params.length) :
      Carries (.named params true) (.array items) (items.map expression)

/-! ### Branches -/

theorem branchParts_eq_filterMap (fields : Fields) : branchParts fields
    = fields.filterMap fun f =>
      if f.1 = "case" ∨ f.1 = "then" then some (f.1, expression f.2) else none := by
  induction fields with
  | nil => rw [branchParts, List.filterMap_nil]
  | cons f r ih => rw [branchParts, List.filterMap_cons, ih]; split <;> rfl

theorem lookup_branchParts {key : String} (hkey : key = "case" ∨ key = "then") (fields : Fields) :
    (branchParts fields).lookup key = (fields.lookup key).map expression := by
  rw [branchParts_eq_filterMap]
  refine Outcome.lookup_filterMap (fun v => if_pos hkey) (fun f f' h => ?_) fields
  obtain ⟨_, h⟩ := Option.ite_none_right_eq_some.1 h
  obtain rfl := Option.some.inj h
  rfl

theorem branchCode?_eq_some_iff {fields : Fields} {c : Code} :
    branchCode? (branchParts fields) = some c ↔ Branch (document fields) c := by
  rw [branchCode?, lookup_branchParts (.inl rfl), lookup_branchParts (.inr rfl)]
  constructor
  · intro h
    obtain ⟨_, hfirst, h⟩ := Option.bind_eq_some_iff.1 h
    obtain ⟨_, hsecond, h⟩ := Option.bind_eq_some_iff.1 h
    obtain ⟨case, hcase, rfl⟩ := Option.map_eq_some_iff.1 hfirst
    obtain ⟨consequence, hthen, rfl⟩ := Option.map_eq_some_iff.1 hsecond
    obtain rfl := Option.some.inj h
    exact .parts hcase hthen
  · rintro ⟨hcase, hthen⟩
    rw [hcase, hthen]
    rfl

theorem branches?_eq_some_iff {vs : List Value} {codes : List Code} :
    branches? vs = some codes ↔ vs.Forall₂ Branch codes := by
  induction vs generalizing codes with
  | nil =>
    rw [branches?, List.forall₂_nil_left_iff]
    exact ⟨fun h => (Option.some.inj h).symm, fun h => congrArg some h.symm⟩
  | cons v r ih =>
    constructor
    · intro h
      unfold branches? at h
      split at h
      · rename_i heq
        cases heq
      · rename_i heq
        cases heq
        obtain ⟨branch, hbranch, h⟩ := Option.bind_eq_some_iff.1 h
        obtain ⟨rest, hrest, h⟩ := Option.bind_eq_some_iff.1 h
        obtain rfl := Option.some.inj h
        exact .cons (branchCode?_eq_some_iff.1 hbranch) (ih.1 hrest)
      · cases h
    · intro h
      cases h with
      | cons hbranch hrest =>
        cases hbranch with
        | parts hcase hthen =>
          rw [branches?, branchCode?_eq_some_iff.2 (.parts hcase hthen), ih.2 hrest]
          rfl

/-! ### Named arguments -/

theorem slotCode?_eq_some_iff {slot : Slot} {v : Value} {c : Code} :
    slotCode? (expression v) slot v = some c ↔ Fills slot v c := by
  constructor
  · intro h
    unfold slotCode? at h
    split at h
    · obtain rfl := Option.some.inj h
      exact .expression _ _
    · obtain rfl := Option.some.inj h
      exact .literal _
    · obtain rfl := Option.some.inj h
      exact .text _ _
    · cases h
    · obtain rfl := Option.some.inj h
      exact .flags _
    · cases h
    · obtain rfl := Option.some.inj h
      exact .pattern _
    · obtain rfl := Option.some.inj h
      exact .regex _
    · cases h
    · obtain rfl := Option.some.inj h
      exact .flag _
    · cases h
    · obtain ⟨codes, hcodes, rfl⟩ := Option.map_eq_some_iff.1 h
      exact .branches (branches?_eq_some_iff.1 hcodes)
    · cases h
  · intro h
    cases h with
    | branches h => rw [slotCode?, branches?_eq_some_iff.2 h]; rfl
    | _ => rw [slotCode?]

theorem find?_param {params : List Param} (hn : (params.map (·.name)).Nodup) {param : Param}
    (h : param ∈ params) : params.find? (·.name = param.name) = some param := by
  induction params with
  | nil => exact absurd h List.not_mem_nil
  | cons q r ih =>
    rw [List.map_cons, List.nodup_cons] at hn
    rcases List.mem_cons.1 h with rfl | h
    · exact List.find?_cons_of_pos (by simp)
    · have hne : q.name ≠ param.name := fun e => hn.1 (e ▸ List.mem_map_of_mem h)
      rw [List.find?_cons_of_neg (by simpa using hne), ih hn.2 h]

theorem namedArguments_eq_filterMap (params : List Param) (fields : Fields) :
    namedArguments params fields = fields.filterMap fun f =>
      (params.find? (·.name = f.1)).map fun param =>
        (f.1, slotCode? (expression f.2) param.slot f.2) := by
  induction fields with
  | nil => rw [namedArguments, List.filterMap_nil]
  | cons f r ih =>
    rw [namedArguments, List.filterMap_cons, ih]
    cases params.find? (·.name = f.1) <;> rfl

/-- What the first field of a parameter's name gives. -/
theorem lookup_namedArguments {params : List Param} {param : Param}
    (h : params.find? (·.name = param.name) = some param) (fields : Fields) :
    (namedArguments params fields).lookup param.name
      = (fields.lookup param.name).map fun v => slotCode? (expression v) param.slot v := by
  rw [namedArguments_eq_filterMap]
  refine Outcome.lookup_filterMap (fun v => by rw [h]; rfl) (fun f f' hturn => ?_) fields
  obtain ⟨_, _, rfl⟩ := Option.map_eq_some_iff.1 hturn
  rfl

theorem given_iff {params : List Param} {param : Param}
    (h : params.find? (·.name = param.name) = some param) {fields : Fields} {c : Code} :
    (match (namedArguments params fields).lookup param.name with
      | none => some (missing fields param.slot)
      | some arg => arg) = some c ↔ Given fields param c := by
  rw [lookup_namedArguments h]
  cases hv : fields.lookup param.name with
  | none =>
    constructor
    · intro h
      obtain rfl := Option.some.inj h
      exact .absent hv
    · intro h
      cases h with
      | absent => rfl
      | present hv' => rw [hv] at hv'; cases hv'
  | some v =>
    constructor
    · intro h
      exact .present hv (slotCode?_eq_some_iff.1 h)
    · intro h
      cases h with
      | absent hv' => rw [hv] at hv'; cases hv'
      | present hv' hc =>
        rw [hv] at hv'
        cases hv'
        exact slotCode?_eq_some_iff.2 hc

theorem inOrder?_eq_some_iff {all params : List Param}
    (h : ∀ param ∈ params, all.find? (·.name = param.name) = some param) {fields : Fields}
    {args : List Code} :
    inOrder? fields (namedArguments all fields) params = some args
      ↔ params.Forall₂ (Given fields) args := by
  induction params generalizing args with
  | nil =>
    rw [List.forall₂_nil_left_iff]
    exact ⟨fun h => (Option.some.inj h).symm, fun h => congrArg some h.symm⟩
  | cons param r ih =>
    have hparam := h param List.mem_cons_self
    have hrest (cs : List Code) : inOrder? fields (namedArguments all fields) r = some cs
        ↔ r.Forall₂ (Given fields) cs := ih fun q hq => h q (List.mem_cons_of_mem param hq)
    rw [inOrder?, List.mapM_cons]
    constructor
    · intro h
      obtain ⟨c, hc, h⟩ := Option.bind_eq_some_iff.1 h
      obtain ⟨cs, hcs, h⟩ := Option.bind_eq_some_iff.1 h
      obtain rfl := Option.some.inj h
      exact .cons ((given_iff hparam).1 hc) ((hrest cs).1 hcs)
    · intro h
      cases h with
      | cons hc hcs =>
        exact Option.bind_eq_some_iff.2 ⟨_, (given_iff hparam).2 hc,
          Option.bind_eq_some_iff.2 ⟨_, (hrest _).2 hcs, rfl⟩⟩

/-! ### Operands -/

/-- **The operands are what the relation says.** -/
theorem operands?_eq_some_iff {arity : Arity} (hn : (arity.params.map (·.name)).Nodup)
    {arg : Value} {args : List Code} :
    operands? (expression arg) arity arg = some args ↔ Carries arity arg args := by
  constructor
  · intro h
    unfold operands? at h
    split at h
    · obtain rfl := Option.some.inj h
      exact .nullary _
    · obtain rfl := Option.some.inj h
      exact .unary _
    · obtain rfl := Option.some.inj h
      exact .literal _
    · obtain ⟨hlength, h⟩ := Option.ite_none_right_eq_some.1 h
      obtain rfl := Option.some.inj h
      subst hlength
      rw [expressions_eq_map]
      exact .fixed _
    · rename_i harray
      obtain ⟨rfl, h⟩ := Option.ite_none_right_eq_some.1 h
      obtain rfl := Option.some.inj h
      exact .lone fun items he => harray items he
    · obtain rfl := Option.some.inj h
      rw [expressions_eq_map]
      exact .variadic _
    · cases h
    · exact .named _ ((inOrder?_eq_some_iff fun param hp => find?_param hn hp).1 h)
    · obtain ⟨hlength, h⟩ := Option.ite_none_right_eq_some.1 h
      obtain rfl := Option.some.inj h
      rw [Bool.and_eq_true, decide_eq_true_eq] at hlength
      obtain ⟨rfl, hlength⟩ := hlength
      rw [expressions_eq_map]
      exact .positional hlength
    · cases h
  · intro h
    cases h with
    | nullary | unary | literal => rw [operands?]
    | fixed items => rw [operands?, if_pos rfl, expressions_eq_map]
    | lone harray => rw [operands?, if_pos rfl]; exact harray
    | variadic items => rw [operands?, expressions_eq_map]
    | named positional h =>
      rw [operands?]
      exact (inOrder?_eq_some_iff fun param hp => find?_param hn hp).2 h
    | positional h =>
      rw [operands?, expressions_eq_map, Bool.true_and, if_pos (decide_eq_true h)]

theorem Carries.unique {arity : Arity} (hn : (arity.params.map (·.name)).Nodup) {arg : Value}
    {args args' : List Code} (h : Carries arity arg args) (h' : Carries arity arg args') :
    args = args' := by
  rw [← operands?_eq_some_iff hn] at h h'
  rw [h] at h'
  exact Option.some.inj h'

/-! ### Operators -/

theorem call_ne_rawPair (builder key : String) (args : List Code) (c : Code) :
    call builder args ≠ rawPair key c := by
  rw [call, rawPair, composite]
  simp

section Operator

variable {op : String} {spec : ExpressionOperator} (hop : ExpressionOperator.find? op = some spec)
  {arg : Value}
include hop

theorem expression_operator : expression (document [(op, arg)]) =
    match operands? (expression arg) spec.arity arg with
    | some args => call spec.builder args
    | none => rawPair op (literal arg) := by
  rw [expression, if_pos (ExpressionOperator.isOperator_of_find? hop)]
  cases h : operands? (expression arg) spec.arity arg <;> simp only [hop, h]

/-- An operator with operands is a call of its builder. -/
theorem expression_of_carries {args : List Code} (h : Carries spec.arity arg args) :
    expression (document [(op, arg)]) = call spec.builder args := by
  rw [expression_operator hop,
    (operands?_eq_some_iff (ExpressionOperator.params_nodup hop)).2 h]

theorem carries_of_expression {args : List Code}
    (h : expression (document [(op, arg)]) = call spec.builder args) :
    Carries spec.arity arg args := by
  rw [expression_operator hop] at h
  cases hargs : operands? (expression arg) spec.arity arg with
  | none =>
    rw [hargs] at h
    exact absurd h.symm (call_ne_rawPair _ _ _ _)
  | some args' =>
    rw [hargs] at h
    obtain rfl : args' = args := by simpa [call] using h
    exact (operands?_eq_some_iff (ExpressionOperator.params_nodup hop)).1 hargs

/-- **An operator is kept as it is exactly when it has no operands.** -/
theorem expression_eq_rawPair_iff :
    expression (document [(op, arg)]) = rawPair op (literal arg)
      ↔ ¬ ∃ args, Carries spec.arity arg args := by
  have hn := ExpressionOperator.params_nodup hop
  constructor
  · rintro hraw ⟨args, hargs⟩
    rw [expression_of_carries hop hargs] at hraw
    exact call_ne_rawPair _ _ _ _ hraw
  · intro hnone
    rw [expression_operator hop]
    cases h : operands? (expression arg) spec.arity arg with
    | none => rfl
    | some args => exact absurd ⟨args, (operands?_eq_some_iff hn).1 h⟩ hnone

end Operator

end Value

end QueryScribe
