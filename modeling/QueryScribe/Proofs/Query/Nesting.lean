import QueryScribe.Proofs.Code.Shift
import QueryScribe.Proofs.Query.Concatenation

/-!
# Predicates inside other queries

A predicate is written the same way wherever it stands: alone, in the list of a logical
operator or in the stage that keeps what it holds of.  Alone it is the one call `clause`;
inside it is that call again with one more tab.  This holds because a standing call
closes its own brackets, so that the brackets which other calls open in front of it, on its
line or before it, are one more line of open brackets to each of its lines.
-/

namespace QueryScribe

open QueryScribe.Text QueryScribe.Layout QueryScribe.Code QueryScribe.Outcome

namespace Predicate

/-! ### Predicates without conditions -/

/-- Operators have no condition only if they are all flags beside a pattern. -/
theorem flags_of_derives {fallback beside : Bool} {field : String} {given : Option String}
    {ops : Fields} (h : Derives fallback (.operators field given beside ops) []) :
    ∀ o ∈ ops, o.1 = "$options" ∧ beside = true := by
  induction ops with
  | nil => exact fun o ho => absurd ho List.not_mem_nil
  | cons o r ih =>
    cases h with
    | flags h =>
      intro p hp
      rcases List.mem_cons.1 hp with rfl | hp
      · exact ⟨rfl, rfl⟩
      · exact ih h p hp

/-- **Only the empty predicate has no conditions.** -/
theorem conditions_ne_nil {fallback : Bool} {fields : Fields} {cs : List Condition}
    (h : conditions fallback fields = .ok cs) (hne : fields ≠ []) : cs ≠ [] := by
  have hplace : (Place.pairs fields).conditions fallback = .ok cs := h
  cases derives_of_conditions hplace with
  | noPairs => exact absurd rfl hne
  | logical | plain => exact List.cons_ne_nil _ _
  | field _ ho _ hparts _ =>
    intro hnil
    obtain ⟨rfl, rfl⟩ := List.append_eq_nil_iff.1 hnil
    obtain ⟨o, hmem, hflags⟩ := exists_operator (isOperators_of_operators ho)
    exact hflags (flags_of_derives hparts o hmem)

/-! ### Logical operators -/

theorem alternatives_documents (fallback : Bool) (docs : List Fields) :
    alternatives fallback (docs.map .document) = docs.mapM (condition fallback) := by
  induction docs with
  | nil => rw [List.map_nil, alternatives, List.mapM_nil]; rfl
  | cons d r ih =>
    rw [List.map_cons, alternatives, alternative, List.mapM_cons, ih]
    rfl

theorem conditions_logical {key : String} {connective : Connective}
    (hk : Connective.ofKey? key = some connective) (fallback : Bool) (docs : List Fields) :
    conditions fallback [(key, .array (docs.map .document))]
      = (docs.mapM (condition fallback)).map fun cs => [.junction connective cs] := by
  rw [conditions_cons, pairConditions, hk]
  dsimp only
  rw [alternatives_documents, conditions]
  cases docs.mapM (condition fallback) <;> rfl

theorem standing_condition {fallback : Bool} {fields : Fields} {c : Condition}
    (h : condition fallback fields = .ok c) : Standing c.code := by
  obtain ⟨cs, hcs, rfl⟩ := map_eq_ok.1 h
  exact standing_together (standing_conditions hcs)

end Predicate

namespace Query

open QueryScribe.Predicate

/-! ### Predicates where one is needed -/

/-- The code of a predicate where one is needed: that of an empty one is a call too. -/
def clause (o : Options) (fields : Fields) : Except QueryError String :=
  if fields.isEmpty then .ok (String.ofList (render o.packages (call "NewFilter" [])))
  else ofFilter o fields

/-- The lines of a predicate in the list of a logical operator. -/
def inside (code : String) : List (List Char) := tabbed (code.toList ++ [','])

/-- The code of a logical operator, from the codes of its predicates. -/
def junction (o : Options) (builder : String) (codes : List String) : String :=
  ofLines ((qualified o.packages .builder builder ++ ['(']) :: (codes.flatMap inside ++ [[')']]))

def filtering (o : Options) (code : String) : String :=
  head o ++ ".\n\tMatch(" ++ ofLines (hung code.toList) ++ ")"

theorem clause_eq_error {o : Options} {fields : Fields} {e : QueryError} :
    clause o fields = .error e ↔ ofFilter o fields = .error e := by
  cases fields with
  | nil => exact iff_of_false nofun nofun
  | cons f r => exact Iff.rfl

theorem exists_clause {o : Options} {fields : Fields} {code : String}
    (h : ofFilter o fields = .ok code) : ∃ code, clause o fields = .ok code := by
  cases fields with
  | nil => exact ⟨_, rfl⟩
  | cons f r => exact ⟨code, h⟩

section Valid

variable {o : Options} (ho : o.Valid)
include ho

theorem formatCode_single {c : Code} (hc : Standing c) :
    formatCode (String.ofList (chain o.packages [c]))
      = .ok (String.ofList (laid o.packages 0 c)) := by
  rw [formatCode, String.toList_ofList, chain, List.map_singleton, List.intercalate_singleton,
    (settled_render ho.firmPackages hc).format_eq]

theorem clause_eq (fields : Fields) :
    clause o fields = ((condition o.rawFilterFallback fields).map fun c =>
      String.ofList (laid o.packages 0 c.code)).mapError .ofBuilder := by
  rw [condition]
  by_cases hf : fields = []
  · subst hf
    have hcall : Inline (call "NewFilter" []) := inline_call (by decide) inline_none
    have hlaid := hcall.laid_eq o.packages 0
    rw [conditions, clause, if_pos List.isEmpty_nil, ← hlaid, ← Condition.code]
    rfl
  · have hempty : ¬ fields.isEmpty = true := by simpa using hf
    rw [clause, if_neg hempty, ofFilter, links]
    cases h : conditions o.rawFilterFallback fields with
    | error e => rfl
    | ok cs =>
      have hstands := standing_together (standing_conditions h)
      obtain ⟨c, r, rfl⟩ := List.exists_cons_of_ne_nil (conditions_ne_nil h hf)
      exact formatCode_single ho hstands

theorem mapM_clause (docs : List Fields) :
    docs.mapM (clause o) = ((docs.mapM (condition o.rawFilterFallback)).map
      (List.map fun c => String.ofList (laid o.packages 0 c.code))).mapError .ofBuilder := by
  rw [funext (clause_eq ho)]
  exact mapM_map_mapError (condition o.rawFilterFallback) _ _ docs

theorem ofList_laid_junction (connective : Connective) {cs : List Condition} (hne : cs ≠ [])
    (h : ∀ c ∈ cs, Standing c.code) :
    String.ofList (laid o.packages 0 (Condition.junction connective cs).code)
      = junction o connective.builder
        (cs.map fun c => String.ofList (laid o.packages 0 c.code)) := by
  have hcodes : Condition.codes cs ≠ [] := by simpa [Condition.codes_eq_map] using hne
  have htame : ∀ c ∈ Condition.codes cs, Tame c := fun c hc => (standing_codes h c hc).tame
  rw [Condition.code, laid_callLines ho.firmPackages.tame hcodes htame, junction, ofLines,
    Condition.codes_eq_map, List.flatMap_map, List.flatMap_map]
  simp only [inside, String.toList_ofList]

/-- **A logical operator over predicates** has their codes inside, or the first failure of them. -/
theorem ofFilter_logical {key : String} {connective : Connective}
    (hk : Connective.ofKey? key = some connective) {docs : List Fields} (hne : docs ≠ []) :
    ofFilter o [(key, .array (docs.map .document))]
      = (docs.mapM (clause o)).map (junction o connective.builder) := by
  have hclause : ofFilter o [(key, .array (docs.map .document))]
      = clause o [(key, .array (docs.map .document))] := rfl
  rw [hclause, clause_eq ho, condition, conditions_logical hk, mapM_clause ho]
  cases h : docs.mapM (condition o.rawFilterFallback) with
  | error e => rfl
  | ok cs =>
    have hcs : cs ≠ [] := by
      obtain ⟨d, r, rfl⟩ := List.exists_cons_of_ne_nil hne
      obtain ⟨c, _, rest, _, rfl⟩ := mapM_cons_eq_ok.1 h
      exact List.cons_ne_nil c rest
    have hstands : ∀ c ∈ cs, Standing c.code := forall_of_mapM (fun _ _ => standing_condition) h
    exact congrArg Except.ok (ofList_laid_junction ho connective hcs hstands)

theorem head_joined_match {c : Condition} (hc : Standing c.code) :
    head o ++ joined [String.ofList (laid o.packages 1 (method "Match" [c.code]))]
      = filtering o (String.ofList (laid o.packages 0 c.code)) := by
  have hlaid := laid_method ho.firmPackages.tame "Match" hc.tame
  rw [hlaid, ← String.toList_inj]
  simp [joined, filtering, ofLines]

/-- **A predicate in a pipeline** is its code with one more tab, or its failure. -/
theorem ofPipeline_match (fields : Fields) :
    ofPipeline o [.document [("$match", .document fields)]]
      = (clause o fields).map (filtering o) := by
  have hstage : Pipeline.stageOf o.rawFilterFallback (.document [("$match", .document fields)])
      = (condition o.rawFilterFallback fields).map fun c => method "Match" [c.code] := by
    rw [Pipeline.stageOf, Pipeline.stage, Pipeline.matching]
    cases condition o.rawFilterFallback fields <;> rfl
  rw [ofPipeline_eq ho, clause_eq ho, List.mapM_cons, List.mapM_nil, stageCode, hstage]
  cases h : condition o.rawFilterFallback fields with
  | error e => rfl
  | ok c =>
    exact congrArg Except.ok (head_joined_match ho (standing_condition h))

/-! ### The theorem -/

/-- **Nesting a predicate only indents it.**  In the list of a logical operator the lines of its
code have one more tab, and a comma behind the last of them; in a pipeline they have one more tab
but for the first.  A logical operator fails as the first of its predicates does that fails. -/
theorem nesting_indents {docs : List Fields} (hne : docs ≠ []) {key builder : String}
    (hk : (key, builder) ∈ [("$and", "And"), ("$or", "Or"), ("$nor", "Nor")]) :
    (∀ codes, List.Forall₂ (fun d code => clause o d = .ok code) docs codes →
        ofFilter o [(key, .array (docs.map .document))] = .ok (junction o builder codes))
      ∧ (∀ before d after e, docs = before ++ d :: after →
        (∀ b ∈ before, ∃ code, ofFilter o b = .ok code) → ofFilter o d = .error e →
        ofFilter o [(key, .array (docs.map .document))] = .error e)
      ∧ ∀ d ∈ docs, ∀ code, clause o d = .ok code →
        ofPipeline o [.document [("$match", .document d)]] = .ok (filtering o code) := by
  obtain ⟨connective, hconnective, rfl⟩ :
      ∃ connective, Connective.ofKey? key = some connective ∧ connective.builder = builder := by
    simp only [List.mem_cons, Prod.mk.injEq, List.not_mem_nil, or_false] at hk
    rcases hk with ⟨rfl, rfl⟩ | ⟨rfl, rfl⟩ | ⟨rfl, rfl⟩
    · exact ⟨.and, rfl, rfl⟩
    · exact ⟨.or, rfl, rfl⟩
    · exact ⟨.nor, rfl, rfl⟩
  refine ⟨?_, ?_, ?_⟩
  · intro codes h
    rw [ofFilter_logical ho hconnective hne, mapM_eq_ok_of_forall₂ h]
    rfl
  · intro before d after e hdocs hbefore hd
    have hfirst := mapM_eq_error_of_first (fun b hb => (hbefore b hb).elim fun _ => exists_clause)
      (clause_eq_error.2 hd) after
    rw [ofFilter_logical ho hconnective hne, hdocs, hfirst]
    rfl
  · intro d _ code h
    rw [ofPipeline_match ho, h]
    rfl

end Valid

/-- The empty predicate and one that hangs, whose first line opens two brackets, and in front of
another failure a predicate that fails, under the standard options. -/
theorem nesting_indents_elements :
    Options.standard.Valid
      ∧ ofFilter .standard [("$nor", .array ([[], [("a", .document [("$elemMatch",
          .document [("b", .null), ("c", .null)])])]].map .document))]
        = .ok ("gmqb.Nor(\n\tgmqb.NewFilter(),\n\tgmqb.ElemMatch(\"a\", gmqb.And("
          ++ "\n\t\tgmqb.Eq(\"b\", nil),\n\t\tgmqb.Eq(\"c\", nil),\n\t)),\n)")
      ∧ ofPipeline .standard [.document [("$match", .document [("a", .document [("$elemMatch",
          .document [("b", .null), ("c", .null)])])])]]
        = .ok ("gmqb.NewPipeline().\n\tMatch(gmqb.ElemMatch(\"a\", gmqb.And("
          ++ "\n\t\tgmqb.Eq(\"b\", nil),\n\t\tgmqb.Eq(\"c\", nil),\n\t)))")
      ∧ ofFilter .standard [("$nor", .array ([[], [("$where", .null)], [("$or", .null)]].map
          .document))] = .error (.rule (.whereNotString "null")) := by
  have hempty : clause .standard [] = .ok "gmqb.NewFilter()" := by decide +kernel
  have hhangs : clause .standard [("a", .document [("$elemMatch",
        .document [("b", .null), ("c", .null)])])]
      = .ok ("gmqb.ElemMatch(\"a\", gmqb.And("
        ++ "\n\tgmqb.Eq(\"b\", nil),\n\tgmqb.Eq(\"c\", nil),\n))") := by decide +kernel
  have hfails : ofFilter .standard [("$where", .null)]
      = .error (.rule (.whereNotString "null")) := by decide +kernel
  have hnor : ("$nor", "Nor") ∈ [("$and", "And"), ("$or", "Or"), ("$nor", "Nor")] := by decide
  obtain ⟨laid, _, matched⟩ := nesting_indents Options.standard_valid (List.cons_ne_nil [] [_]) hnor
  obtain ⟨_, refused, _⟩ := nesting_indents Options.standard_valid (List.cons_ne_nil [] [_, _]) hnor
  refine ⟨Options.standard_valid, ?_, ?_, ?_⟩
  · have htext := laid _ (.cons hempty (.cons hhangs .nil))
    exact htext.trans (congrArg Except.ok (by decide +kernel))
  · have htext := matched _ (List.mem_cons_of_mem [] List.mem_cons_self) _ hhangs
    exact htext.trans (congrArg Except.ok (by decide +kernel))
  · refine refused [[]] _ [_] _ rfl (fun b hb => ?_) hfails
    rw [List.mem_singleton.1 hb]
    exact ⟨"", by decide +kernel⟩

end Query

end QueryScribe
