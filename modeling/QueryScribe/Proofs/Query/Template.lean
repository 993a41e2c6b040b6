import QueryScribe.Proofs.Code.Template
import QueryScribe.Proofs.Query.Nesting

/-!
# Queries and package names

Package names reach the code of a query in one place, the names of its calls and types.  The
code is a template that is made without them, filled in: the layout pass turns a standing call into
its laid-out text whatever the packages are called, and the laid-out text is a
filled template.  Whether a query has code at all is settled before any name is written.
-/

namespace QueryScribe.Query

open QueryScribe.Layout QueryScribe.Code QueryScribe.Outcome

def chained : List Code → Template
  | [] => []
  | c :: r => pieces 0 c ++ r.flatMap fun d => .text ['.', '\n', '\t'] :: pieces 1 d

/-- The template of a value's code, or why there is none.  Package names have no part in it. -/
def template (fallback : Bool) : Value → Except QueryError Template
  | .array stages => ((Pipeline.links fallback stages).map chained).mapError .ofBuilder
  | .document fields => ((Predicate.links fallback fields).map chained).mapError .ofBuilder
  | v => .error (.shape .either v.kind)

/-! ### Quotes in templates -/

theorem unquoted_chained {links : List Code} (h : ∀ c ∈ links, Standing c) :
    ∀ a ∈ chained links, a.Unquoted := by
  cases links with
  | nil => exact fun a ha => absurd ha List.not_mem_nil
  | cons c r =>
    intro a ha
    rcases List.mem_append.1 ha with ha | ha
    · exact unquoted_pieces (h c List.mem_cons_self).tame 0 a ha
    · obtain ⟨d, hd, ha⟩ := List.mem_flatMap.1 ha
      rcases List.mem_cons.1 ha with rfl | ha
      · show '"' ∉ ['.', '\n', '\t']
        decide
      · exact unquoted_pieces (h d (List.mem_cons_of_mem c hd)).tame 1 a ha

theorem unquoted_template {fallback : Bool} {v : Value} {t : Template}
    (h : template fallback v = .ok t) : ∀ a ∈ t, a.Unquoted := by
  have hlinks {r : Predicate.Result (List Code)}
      (hr : ∀ links, r = .ok links → ∀ c ∈ links, Standing c)
      (h : (r.map chained).mapError QueryError.ofBuilder = .ok t) : ∀ a ∈ t, a.Unquoted := by
    cases r with
    | error e => cases h
    | ok links =>
      cases h
      exact unquoted_chained (hr links rfl)
  unfold template at h
  split at h
  · exact hlinks (fun _ => Pipeline.standing_links) h
  · exact hlinks (fun _ => Predicate.standing_links) h
  · cases h

theorem quote_notMem_packageName {o : Options} (ho : o.Valid) (package : Package) :
    '"' ∉ (packageName o.packages package).toList := by
  obtain ⟨hbuilder, hbson⟩ := ho.firmPackages.tame
  cases package with
  | builder => exact quote_notMem_of_tame hbuilder
  | bson => exact quote_notMem_of_tame hbson

/-! ### Templates filled in -/

section Valid

variable {o : Options} (ho : o.Valid)
include ho

/-- The code of a pipeline is its template filled in. -/
theorem ofPipeline_template (stages : List Value) :
    ofPipeline o stages = (template o.rawFilterFallback (.array stages)).map
      fun t => String.ofList (t.fill o.packages) := by
  rw [ofPipeline, template, Pipeline.links]
  cases h : stages.mapM (Pipeline.stageOf o.rawFilterFallback) with
  | error e => rfl
  | ok calls =>
    have hhead : laid o.packages 0 (call "NewPipeline" [])
        = render o.packages (call "NewPipeline" []) :=
      (inline_call (by decide) inline_none).laid_eq o.packages 0
    refine (formatCode_chain ho (Pipeline.standing_stages h)).trans (congrArg Except.ok ?_)
    show _ = String.ofList (Template.fill o.packages (chained (call "NewPipeline" [] :: calls)))
    rw [head_append_joined, chained, Template.fill_append, Template.fill_flatMap, fill_pieces,
      hhead]
    simp only [Template.fill_text, fill_pieces]
    rfl

/-- The code of a predicate is its template filled in. -/
theorem ofFilter_template (fields : Fields) :
    ofFilter o fields = (template o.rawFilterFallback (.document fields)).map
      fun t => String.ofList (t.fill o.packages) := by
  rw [ofFilter, template]
  cases h : Predicate.links o.rawFilterFallback fields with
  | error e => rfl
  | ok links =>
    have hstands := Predicate.standing_links h
    obtain ⟨cs, _, rfl⟩ := map_eq_ok.1 h
    cases cs with
    | nil => rfl
    | cons c r =>
      have hcode := formatCode_single ho (hstands _ (List.mem_singleton_self _))
      refine hcode.trans (congrArg Except.ok ?_)
      show _ = String.ofList (Template.fill o.packages (pieces 0 _ ++ []))
      rw [List.append_nil, fill_pieces]

theorem ofValue_template (v : Value) :
    ofValue o v = (template o.rawFilterFallback v).map
      fun t => String.ofList (t.fill o.packages) := by
  cases v with
  | array stages => exact ofPipeline_template ho stages
  | document fields => exact ofFilter_template ho fields
  | _ => rfl

/-- **Package names only fill gaps.**  The code of a value is a template filled in, which is the
same for all valid options that treat unknown operators alike: every name has its package in front,
and nothing else changes.  In particular the string literals of the code are those of the template,
and the value has no code for the same reason under all of them. -/
theorem ofValue_fills_template (v : Value) :
    (ofValue o v = (template o.rawFilterFallback v).map fun t => String.ofList (t.fill o.packages))
      ∧ (∀ t, template o.rawFilterFallback v = .ok t →
        StringLiteral.literals (t.fill o.packages) = t.strings.map StringLiteral.write)
      ∧ ∀ o' : Options, o'.Valid → o'.rawFilterFallback = o.rawFilterFallback →
        (∀ e, ofValue o v = .error e ↔ ofValue o' v = .error e)
          ∧ ∀ text text', ofValue o v = .ok text → ofValue o' v = .ok text' →
            StringLiteral.literals text.toList = StringLiteral.literals text'.toList := by
  have hliterals {o : Options} (ho : o.Valid) {t : Template}
      (ht : template o.rawFilterFallback v = .ok t) :
      StringLiteral.literals (t.fill o.packages) = t.strings.map StringLiteral.write :=
    Template.literals_fill (unquoted_template ht) (quote_notMem_packageName ho)
  refine ⟨ofValue_template ho v, fun t => hliterals ho, fun o' ho' hflag => ⟨fun e => ?_, ?_⟩⟩
  · rw [ofValue_template ho, ofValue_template ho', hflag, map_eq_error, map_eq_error]
  · intro text text' htext htext'
    rw [ofValue_template ho] at htext
    rw [ofValue_template ho', hflag] at htext'
    obtain ⟨t, ht, rfl⟩ := map_eq_ok.1 htext
    obtain ⟨t', ht', rfl⟩ := map_eq_ok.1 htext'
    obtain rfl : t = t' := by
      rw [ht] at ht'
      exact Except.ok.inj ht'
    rw [String.toList_ofList, String.toList_ofList, hliterals ho ht, hliterals ho' (hflag ▸ ht)]

end Valid

/-- One template under two choices of packages, of which the second has no name for the builder. -/
theorem ofValue_fills_template_minKey :
    Options.standard.Valid ∧ (⟨"", "b", false, true⟩ : Options).Valid
      ∧ template false (.document [("a", .minKey)]) = .ok [.slot .builder "Eq", .text ['('],
        .quoted "a", .text [',', ' '], .slot .bson "MinKey", .text ['\x7b'], .text ['\x7d'],
        .text [')']]
      ∧ ofValue .standard (.document [("a", .minKey)])
        = .ok "gmqb.Eq(\"a\", bson.MinKey\x7b\x7d)"
      ∧ ofValue ⟨"", "b", false, true⟩ (.document [("a", .minKey)])
        = .ok "Eq(\"a\", b.MinKey\x7b\x7d)" := by
  have hshort : (⟨"", "b", false, true⟩ : Options).Valid := by decide +kernel
  have htemplate : template false (.document [("a", .minKey)]) = .ok [.slot .builder "Eq",
      .text ['('], .quoted "a", .text [',', ' '], .slot .bson "MinKey", .text ['\x7b'],
      .text ['\x7d'], .text [')']] := rfl
  refine ⟨Options.standard_valid, hshort, htemplate, ?_, ?_⟩
  · rw [(ofValue_fills_template Options.standard_valid (.document [("a", .minKey)])).1]
    show (template false (.document [("a", .minKey)])).map _ = _
    rw [htemplate]
    decide +kernel
  · rw [(ofValue_fills_template hshort (.document [("a", .minKey)])).1]
    show (template false (.document [("a", .minKey)])).map _ = _
    rw [htemplate]
    decide +kernel

end QueryScribe.Query
