import QueryScribe.Proofs.Predicate.Truth

/-!
# Flags beside a pattern

Among the operators of a field, `$options` is no operator of its own but belongs to `$regex`,
wherever the two stand.  The flags are found by one look at all operators, and whether
`$options` is passed over by another one.  `withFlags` is all that they do: each test of a
pattern gets them in place of the flags that it had, and every other test stays as it is.  A
predicate on the elements of an array has operators of its own, and their flags are there.
-/

namespace QueryScribe.Predicate

open QueryScribe.Code QueryScribe.Value QueryScribe.Outcome

/-- The same condition with other flags, if it is the test of a pattern. -/
def withFlags (flags : String) : Condition → Condition
  | .test "Regex" [field, pattern, _] => .test "Regex" [field, pattern, .quoted flags]
  | c => c

theorem withFlags_of_ne {c : Condition} (h : ∀ args, c ≠ .test "Regex" args) (flags : String) :
    withFlags flags c = c := by
  unfold withFlags
  split
  · exact absurd rfl (h _)
  · rfl

/-- What an operator of a field becomes when `$regex` and `$options` are not both there: a pattern
has its own flags or none, and `$options` is passed on as it is. -/
inductive Alone (fallback : Bool) (field : String) : String × Value → Condition → Prop
  | string (s : String) :
      Alone fallback field ("$regex", .string s) (fieldTest "Regex" field [.quoted s, .quoted ""])
  | regex (re : Regex) : Alone fallback field ("$regex", .regex re)
      (fieldTest "Regex" field [.quoted re.pattern, .quoted re.flags])
  | flags (hfallback : fallback = true) (v : Value) : Alone fallback field ("$options", v)
      (rawTest (rawPair field (rawPair "$options" v.literal)))
  | other {operator : String} {v : Value} {c : Condition} (hr : operator ≠ "$regex")
      (ho : operator ≠ "$options") (hc : ∀ args, c ≠ .test "Regex" args) :
      Alone fallback field (operator, v) c

/-! ### One operator -/

/-- Only `$regex` has the builder of patterns. -/
theorem builder_ne_regex {operator : String} {spec : FieldOperator} (hr : operator ≠ "$regex")
    (h : FieldOperator.find? operator = some spec) : spec.builder ≠ "Regex" := by
  intro hb
  have all : ∀ e ∈ FieldOperator.table, e.2.builder = "Regex" → e.1 = "$regex" := by decide
  exact hr (all _ (mem_of_lookup h) hb)

theorem shape_ne_pattern {operator : String} {spec : FieldOperator} (hr : operator ≠ "$regex")
    (h : FieldOperator.find? operator = some spec) : spec.shape ≠ .pattern := by
  intro hs
  have all : ∀ e ∈ FieldOperator.table, e.2.shape = .pattern → e.1 = "$regex" := by decide
  exact hr (all _ (mem_of_lookup h) hs)

section Operator

variable {fallback : Bool} {field operator : String} {given : Option String} {v : Value}
  {c : Condition}

theorem operatorCondition_regex : operatorCondition fallback field "$regex" given v
    = (pattern field given v).map (fieldTest "Regex" field) := by
  have hf : FieldOperator.find? "$regex" = some ⟨"Regex", .pattern⟩ := by decide
  rw [operatorCondition, body_of_ne (by decide)]
  dsimp only
  rw [operatorTest, hf]
  rfl

/-- `$options` has no builder. -/
theorem operatorCondition_options : operatorCondition fallback field "$options" given v
    = unknownOperator fallback field "$options" v := by
  have hf : FieldOperator.find? "$options" = none := by decide
  rw [operatorCondition, body_of_ne (by decide)]
  dsimp only
  rw [operatorTest, hf]

/-- The flags say nothing to an operator other than `$regex`. -/
theorem operatorCondition_of_ne (hr : operator ≠ "$regex") (given given' : Option String) :
    operatorCondition fallback field operator given v
      = operatorCondition fallback field operator given' v := by
  rw [operatorCondition, operatorCondition]
  cases body? operator v with
  | some fields => rfl
  | none =>
    dsimp only
    rw [operatorTest, operatorTest]
    cases hspec : FieldOperator.find? operator with
    | none => rfl
    | some spec =>
      have hs := shape_ne_pattern hr hspec
      obtain ⟨builder, shape⟩ := spec
      cases shape with
      | pattern => exact absurd rfl hs
      | _ => cases v <;> rfl

/-- No operator but `$regex` becomes the test of a pattern. -/
theorem ne_regex_of_operatorCondition (hr : operator ≠ "$regex")
    (h : operatorCondition fallback field operator given v = .ok c) :
    ∀ args, c ≠ .test "Regex" args := by
  intro args he
  rw [operatorCondition] at h
  cases hb : body? operator v with
  | some fields =>
    rw [hb] at h
    obtain ⟨parts, _, rfl⟩ := map_eq_ok.1 h
    cases he
  | none =>
    rw [hb] at h
    rcases operatorTest_cases h with ⟨spec, args', hspec, rfl⟩ | ⟨_, rfl⟩
    · have hbuilder := builder_ne_regex hr hspec
      rw [fieldTest, Condition.test.injEq] at he
      exact hbuilder he.1
    · rw [rawTest, Condition.test.injEq] at he
      exact absurd he.1 (by decide)

/-- **Flags that are given replace those of a pattern**, and do nothing else. -/
theorem operatorCondition_given (flags : String) :
    operatorCondition fallback field operator (some flags) v
      = (operatorCondition fallback field operator none v).map (withFlags flags) := by
  by_cases hr : operator = "$regex"
  · -- the flags are the last argument, whether the pattern is a text or has flags of its own
    subst hr
    rw [operatorCondition_regex, operatorCondition_regex]
    cases v <;> rfl
  · rw [operatorCondition_of_ne hr (some flags) none]
    symm
    refine map_eq_self fun c hc => ?_
    exact withFlags_of_ne (ne_regex_of_operatorCondition hr hc) flags

theorem alone_of_operatorCondition (hgiven : operator = "$regex" → given = none)
    (h : operatorCondition fallback field operator given v = .ok c) :
    Alone fallback field (operator, v) c := by
  by_cases hr : operator = "$regex"
  · subst hr
    rw [hgiven rfl, operatorCondition_regex] at h
    obtain ⟨args, hargs, rfl⟩ := map_eq_ok.1 h
    cases v with
    | string s =>
      obtain rfl := Except.ok.inj hargs
      exact .string s
    | regex re =>
      obtain rfl := Except.ok.inj hargs
      exact .regex re
    | _ => exact absurd hargs nofun
  by_cases ho : operator = "$options"
  · subst ho
    rw [operatorCondition_options, unknownOperator] at h
    cases fallback with
    | true =>
      obtain rfl := Except.ok.inj h
      exact .flags rfl v
    | false => exact absurd h nofun
  · exact .other hr ho (ne_regex_of_operatorCondition hr h)

end Operator

/-! ### All operators of a field -/

/-- The operators are taken one by one, but for flags that are passed over. -/
theorem fieldConditions_eq_mapM (fallback : Bool) (field : String) (given : Option String)
    (beside : Bool) (operators : Fields) :
    fieldConditions fallback field given beside operators
      = (operators.filter fun o => ¬ (o.1 = "$options" ∧ beside = true)).mapM fun o =>
          operatorCondition fallback field o.1 given o.2 := by
  induction operators with
  | nil =>
    rw [fieldConditions]
    rfl
  | cons o r ih =>
    obtain ⟨operator, value⟩ := o
    rw [fieldConditions_cons, ih, List.filter_cons]
    by_cases h : operator = "$options" ∧ beside = true
    · rw [if_pos h, if_neg (by simp [h])]
    · rw [if_neg h, if_pos (decide_eq_true h), List.mapM_cons]

section Operators

variable {fallback : Bool} {field : String} {operators : Fields}

theorem conditions_operators (hf : isField field = true)
    (ho : Fields.isOperators operators = true) :
    conditions fallback [(field, .document operators)]
      = givenFlags? field operators >>= fun given =>
          fieldConditions fallback field given (hasPattern operators) operators := by
  rw [isField, Bool.and_eq_true, Option.isNone_iff_eq_none, Bool.not_eq_true'] at hf
  have hops : operators? field (.document operators) = some operators := if_pos ⟨hf.2, ho⟩
  rw [conditions_cons, pairConditions, hf.1]
  dsimp only
  rw [hops, conditions]
  dsimp only
  rw [hasPattern]
  cases givenFlags? field operators with
  | error e => rfl
  | ok given =>
    rw [ok_bind]
    show (fieldConditions fallback field given (operators.any (·.1 = "$regex")) operators >>= _) = _
    cases fieldConditions fallback field given (operators.any (·.1 = "$regex")) operators with
    | error e => rfl
    | ok cs =>
      show Except.ok (cs ++ []) = _
      rw [List.append_nil]

theorem hasPattern_iff : hasPattern operators = true ↔ "$regex" ∈ operators.map (·.1) := by
  simp [hasPattern]

theorem givenFlags?_of_not_mem (h : "$options" ∉ operators.map (·.1)) :
    givenFlags? field operators = .ok none := by
  have hnone : operators.lookup "$options" = none := by
    rw [List.lookup_eq_none_iff]
    intro o hmem
    rw [bne_iff_ne]
    rintro he
    exact h (he ▸ List.mem_map_of_mem hmem)
  rw [givenFlags?, Fields.get?, hnone]

/-- Where no flags are passed over, each operator has its turn. -/
theorem fieldConditions_of_kept {given : Option String} {beside : Bool}
    (h : ∀ o ∈ operators, ¬ (o.1 = "$options" ∧ beside = true)) :
    fieldConditions fallback field given beside operators
      = operators.mapM fun o => operatorCondition fallback field o.1 given o.2 := by
  rw [fieldConditions_eq_mapM, List.filter_eq_self.2 fun o hmem => decide_eq_true (h o hmem)]

theorem conditions_without_flags (hf : isField field = true)
    (ho : Fields.isOperators operators = true) (h : "$options" ∉ operators.map (·.1)) :
    conditions fallback [(field, .document operators)]
      = operators.mapM fun o => operatorCondition fallback field o.1 none o.2 := by
  have hkept : ∀ o ∈ operators, ¬ (o.1 = "$options" ∧ hasPattern operators = true) :=
    fun o hmem hboth => h (hboth.1 ▸ List.mem_map_of_mem hmem)
  rw [conditions_operators hf ho, givenFlags?_of_not_mem h, ok_bind, fieldConditions_of_kept hkept]

/-- Each operator has its condition when `$regex` and `$options` are not both there. -/
theorem alone_of_conditions {cs : List Condition} (hf : isField field = true)
    (ho : Fields.isOperators operators = true)
    (hboth : ¬ ("$regex" ∈ operators.map (·.1) ∧ "$options" ∈ operators.map (·.1)))
    (h : conditions fallback [(field, .document operators)] = .ok cs) :
    operators.Forall₂ (Alone fallback field) cs := by
  rw [conditions_operators hf ho] at h
  obtain ⟨given, hgiven, h⟩ := bind_eq_ok.1 h
  have hkept : ∀ o ∈ operators, ¬ (o.1 = "$options" ∧ hasPattern operators = true) := by
    rintro o hmem ⟨he, hp⟩
    exact hboth ⟨hasPattern_iff.1 hp, he ▸ List.mem_map_of_mem hmem⟩
  have hnone : "$regex" ∈ operators.map (·.1) → given = none := by
    intro hr
    have hn : "$options" ∉ operators.map (·.1) := fun hn => hboth ⟨hr, hn⟩
    rw [givenFlags?_of_not_mem hn] at hgiven
    exact (Except.ok.inj hgiven).symm
  rw [fieldConditions_of_kept hkept] at h
  have hall := forall₂_of_mapM h
  rw [List.forall₂_iff_zip] at hall ⊢
  refine ⟨hall.1, fun {o c} hmem => ?_⟩
  refine alone_of_operatorCondition (fun he => hnone ?_) (hall.2 hmem)
  exact he ▸ List.mem_map_of_mem (List.of_mem_zip hmem).1

/-- Flags that are not beside a pattern are kept only where operators without a builder are. -/
theorem fallback_of_alone {cs : List Condition} (h : operators.Forall₂ (Alone fallback field) cs)
    (hn : "$options" ∈ operators.map (·.1)) : fallback = true := by
  induction h with
  | nil => cases hn
  | cons ho _ ih =>
    rcases List.mem_cons.1 hn with he | hn
    · cases ho with
      | flags hfallback => exact hfallback
      | other _ hne => exact absurd he.symm hne
      | _ => exact absurd (show "$options" = "$regex" from he) (by decide)
    · exact ih hn

theorem ne_regex_of_alone {cs : List Condition} (h : operators.Forall₂ (Alone fallback field) cs)
    (hr : "$regex" ∉ operators.map (·.1)) : ∀ c ∈ cs, ∀ args, c ≠ .test "Regex" args := by
  induction h with
  | nil => exact fun c hc => absurd hc List.not_mem_nil
  | cons ho _ ih =>
    rw [List.map_cons, List.mem_cons, not_or] at hr
    refine List.forall_mem_cons.2 ⟨fun args he => ?_, ih hr.2⟩
    cases ho with
    | flags =>
      rw [rawTest, Condition.test.injEq] at he
      exact absurd he.1 (by decide)
    | other _ _ hc => exact hc args he
    | _ => exact hr.1 rfl

end Operators

section Beside

variable {fallback : Bool} {field flags : String} {before after : Fields}
  (hf : isField field = true)
  (ho : Fields.isOperators (before ++ ("$options", .string flags) :: after) = true)
  (hn : "$options" ∉ (before ++ after).map (·.1)) (hr : "$regex" ∈ (before ++ after).map (·.1))
include ho hr

/-- Without its flags it is still a document of operators, for the pattern is left. -/
theorem isOperators_without_flags : Fields.isOperators (before ++ after) = true := by
  have hne : before ++ after ≠ [] := fun he => by rw [he] at hr; cases hr
  rw [Fields.isOperators, Bool.and_eq_true, List.all_append, List.all_cons] at ho
  simp only [Bool.and_eq_true] at ho
  simp [Fields.isOperators, hne, ho.2.1, ho.2.2.2]

include hf hn

/-- **The flags beside a pattern go to the patterns, wherever they stand.** -/
theorem conditions_with_flags :
    conditions fallback [(field, .document (before ++ ("$options", .string flags) :: after))]
      = (conditions fallback [(field, .document (before ++ after))]).map
          (List.map (withFlags flags)) := by
  have hrest := isOperators_without_flags ho hr
  have hne : ∀ o ∈ before ++ after, o.1 ≠ "$options" :=
    fun o hmem he => hn (he ▸ List.mem_map_of_mem hmem)
  have hgiven : givenFlags? field (before ++ ("$options", .string flags) :: after)
      = .ok (some flags) := by
    have hlookup : (before ++ ("$options", Value.string flags) :: after).lookup "$options"
        = some (.string flags) := by
      refine List.lookup_eq_some_iff.2 ⟨before, after, rfl, fun o hmem => ?_⟩
      exact bne_iff_ne.2 (hne o (List.mem_append_left after hmem)).symm
    rw [givenFlags?, Fields.get?, hlookup]
  have hpattern : hasPattern (before ++ ("$options", .string flags) :: after) = true := by
    rw [hasPattern_iff, List.map_append, List.mem_append, List.map_cons, List.mem_cons]
    rw [List.map_append, List.mem_append] at hr
    rcases hr with hr | hr
    · exact .inl hr
    · exact .inr (.inr hr)
  have hkept : (before ++ ("$options", Value.string flags) :: after).filter
      (fun o => ¬ (o.1 = "$options" ∧ true = true)) = before ++ after := by
    rw [List.filter_append, List.filter_cons_of_neg (by simp), ← List.filter_append]
    exact List.filter_eq_self.2 fun o hmem => decide_eq_true fun hboth => hne o hmem hboth.1
  -- both sides are now one pass over the same operators
  rw [conditions_operators hf ho, hgiven, ok_bind, hpattern, fieldConditions_eq_mapM, hkept,
    conditions_without_flags hf hrest hn, ← mapM_map]
  simp only [operatorCondition_given]

/-- One condition for each operator other than `$options`. -/
theorem length_with_flags {cs : List Condition}
    (h : conditions fallback [(field, .document (before ++ ("$options", .string flags) :: after))]
      = .ok cs) : cs.length = (before ++ after).length := by
  rw [conditions_with_flags hf ho hn hr,
    conditions_without_flags hf (isOperators_without_flags ho hr) hn] at h
  obtain ⟨plain, hplain, rfl⟩ := map_eq_ok.1 h
  rw [List.length_map, (forall₂_of_mapM hplain).length_eq]

end Beside

/-- **`$options` belongs to `$regex`, wherever it stands.**  Beside a pattern, the conditions or the
failure are those without `$options`, in the same order, but that each test of a pattern has the
flags given; so there is one condition for each other operator.  Where the two are not both there,
a pattern has its own flags or none, and `$options` is passed on or is the failure. -/
theorem flags_beside_pattern :
    (∀ (fallback : Bool) (field : String) (before after : Fields) (flags : String),
      isField field = true →
      Fields.isOperators (before ++ ("$options", .string flags) :: after) = true →
      "$options" ∉ (before ++ after).map (·.1) → "$regex" ∈ (before ++ after).map (·.1) →
      conditions fallback [(field, .document (before ++ ("$options", .string flags) :: after))]
          = (conditions fallback [(field, .document (before ++ after))]).map
              (List.map (withFlags flags)) ∧
        ∀ cs, conditions fallback
            [(field, .document (before ++ ("$options", .string flags) :: after))] = .ok cs →
          cs.length = (before ++ after).length) ∧
    (∀ (fallback : Bool) (field : String) (operators : Fields) (cs : List Condition),
      isField field = true → Fields.isOperators operators = true →
      ¬ ("$regex" ∈ operators.map (·.1) ∧ "$options" ∈ operators.map (·.1)) →
      conditions fallback [(field, .document operators)] = .ok cs →
      operators.Forall₂ (Alone fallback field) cs) ∧
    (∀ (fallback : Bool) (field : String) (operators : Fields) (cs : List Condition),
      isField field = true → Fields.isOperators operators = true →
      "$regex" ∉ operators.map (·.1) → "$options" ∈ operators.map (·.1) →
      conditions fallback [(field, .document operators)] = .ok cs →
      fallback = true ∧ ∀ c ∈ cs, ∀ args, c ≠ .test "Regex" args) := by
  refine ⟨?_, ?_, ?_⟩
  · intro fallback field before after flags hf ho hn hr
    exact ⟨conditions_with_flags hf ho hn hr, fun cs h => length_with_flags hf ho hn hr h⟩
  · intro fallback field operators cs hf ho hboth h
    exact alone_of_conditions hf ho hboth h
  · intro fallback field operators cs hf ho hr hn h
    have hall := alone_of_conditions hf ho (fun hboth => hr hboth.1) h
    exact ⟨fallback_of_alone hall hn, ne_regex_of_alone hall hr⟩

def endingB : Regex := ⟨"b$", "m", by decide, by decide⟩

/-- Flags between two patterns and another operator, a pattern alone, and flags alone. -/
theorem flags_beside_pattern_between :
    conditions false [("name", .document [("$regex", .string "^a"), ("$options", .string "i"),
        ("$ne", .string "ab"), ("$regex", .regex endingB)])]
      = .ok [fieldTest "Regex" "name" [.quoted "^a", .quoted "i"],
          fieldTest "Ne" "name" [.quoted "ab"],
          fieldTest "Regex" "name" [.quoted "b$", .quoted "i"]] ∧
    [fieldTest "Regex" "name" [.quoted "^a", .quoted "i"],
        fieldTest "Ne" "name" [.quoted "ab"],
        fieldTest "Regex" "name" [.quoted "b$", .quoted "i"]].length = 3 ∧
    [("$regex", Value.regex endingB)].Forall₂ (Alone false "name")
      [fieldTest "Regex" "name" [.quoted "b$", .quoted "m"]] ∧
    rawTest (rawPair "name" (rawPair "$options" (.quoted "i"))) ≠ .test "Regex" [] := by
  have hbeside := flags_beside_pattern.1 false "name" [("$regex", .string "^a")]
    [("$ne", .string "ab"), ("$regex", .regex endingB)] "i" (by decide) (by decide) (by decide)
    (by decide)
  have hcs := hbeside.1.trans (show _ = .ok [fieldTest "Regex" "name" [.quoted "^a", .quoted "i"],
    fieldTest "Ne" "name" [.quoted "ab"],
    fieldTest "Regex" "name" [.quoted "b$", .quoted "i"]] from rfl)
  refine ⟨hcs, hbeside.2 _ hcs, ?_, ?_⟩
  · exact flags_beside_pattern.2.1 false "name" _ _ (by decide) (by decide) (by decide) rfl
  · exact (flags_beside_pattern.2.2 true "name" [("$options", .string "i")] _ (by decide)
      (by decide) (by decide) (by decide) rfl).2 _ List.mem_cons_self []

end QueryScribe.Predicate
