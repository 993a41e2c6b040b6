import QueryScribe.Proofs.Code.Builders
import QueryScribe.Proofs.Code.Standing
import QueryScribe.Proofs.Options.Packages
import QueryScribe.Proofs.Predicate.Derivation
import QueryScribe.Query

/-!
# The code of every query can be laid out

The conditions of a predicate are standing calls, by induction over their derivation, and so
are the method calls of a pipeline.  With package names that can be names, the chain of
calls is then a whole text, and the layout pass accepts it: `chain_formats`.  What the
user wrote can make a query fail in many ways, but never in the layout.
-/

namespace QueryScribe

open QueryScribe.Text QueryScribe.Layout QueryScribe.Code QueryScribe.Value QueryScribe.Outcome

namespace Predicate

/-! ### Conditions -/

theorem standing_fieldTest {builder : String} (field : String) {args : List Code}
    (hb : isHead builder.toList = true) (h : ∀ c ∈ args, Inline c) :
    Standing (fieldTest builder field args).code := by
  rw [fieldTest, Condition.code]
  refine standing_call hb fun c hc => ?_
  rcases List.mem_cons.1 hc with rfl | hc
  · exact .quoted field
  · exact h c hc

theorem inline_rawTest {c : Code} (h : Inline c) : Inline (rawTest c).code := by
  rw [rawTest, Condition.code]
  exact inline_call (by decide) h.single

theorem standing_rawTest {c : Code} (h : Inline c) : Standing (rawTest c).code := by
  rw [rawTest, Condition.code]
  exact standing_call (by decide) h.single

theorem standing_plainPair {key : String} {value : Value} {c : Condition}
    (h : plainPair key value = .ok c) : Standing c.code := by
  unfold plainPair at h
  split at h
  · obtain rfl := Except.ok.inj h
    rw [Condition.code]
    exact standing_call (by decide) (inline_expression value).single
  · split at h
    · split at h
      · obtain rfl := Except.ok.inj h
        rw [Condition.code]
        exact standing_call (by decide) (Inline.quoted _).single
      · obtain rfl := Except.ok.inj h
        rw [Condition.code]
        exact standing_call (by decide) (Inline.quoted _).single
      · cases h
    · split at h
      · obtain rfl := Except.ok.inj h
        rw [Condition.code]
        exact standing_call (by decide) (inline_literal value).single
      · obtain rfl := Except.ok.inj h
        exact standing_fieldTest key (by decide) (inline_literal value).single

theorem isHead_fieldBuilder {operator : String} {spec : FieldOperator}
    (h : FieldOperator.find? operator = some spec) : isHead spec.builder.toList = true := by
  have all : FieldOperator.table.all (fun entry => isHead entry.2.builder.toList) = true := by
    decide +kernel
  exact List.all_eq_true.1 all _ (mem_of_lookup h)

theorem inline_modulo {field : String} {value : Value} {args : List Code}
    (h : modulo field value = .ok args) : ∀ c ∈ args, Inline c := by
  unfold modulo at h
  split at h
  · split at h
    · obtain rfl := Except.ok.inj h
      exact .pair (inline_integer _) (inline_integer _)
    · exact absurd h nofun
  · exact absurd h nofun

theorem inline_pattern {field : String} {given : Option String} {value : Value} {args : List Code}
    (h : pattern field given value = .ok args) : ∀ c ∈ args, Inline c := by
  unfold pattern at h
  split at h
  · obtain rfl := Except.ok.inj h
    exact .pair (.quoted _) (.quoted _)
  · obtain rfl := Except.ok.inj h
    exact .pair (.quoted _) (.quoted _)
  · exact absurd h nofun

theorem standing_simpleOperator {field operator : String} {spec : FieldOperator}
    {given : Option String} {value : Value} {c : Condition}
    (hb : isHead spec.builder.toList = true)
    (h : simpleOperator field operator spec given value = .ok c) : Standing c.code := by
  unfold simpleOperator at h
  split at h
  · obtain rfl := Except.ok.inj h
    exact standing_fieldTest field hb (inline_literal value).single
  · split at h
    · obtain rfl := Except.ok.inj h
      exact standing_fieldTest field hb (inline_literals _)
    · exact absurd h nofun
  · obtain ⟨args, ha, rfl⟩ := map_eq_ok.1 h
    exact standing_fieldTest field hb (inline_modulo ha)
  · obtain ⟨args, ha, rfl⟩ := map_eq_ok.1 h
    exact standing_fieldTest field hb (inline_pattern ha)
  · exact absurd h nofun

theorem standing_operatorTest {fallback : Bool} {field operator : String} {given : Option String}
    {value : Value} {c : Condition}
    (h : operatorTest fallback field operator given value = .ok c) : Standing c.code := by
  unfold operatorTest at h
  split at h
  · rw [unknownOperator] at h
    split at h
    · obtain rfl := Except.ok.inj h
      exact standing_rawTest (inline_rawPair field (inline_rawPair operator (inline_literal value)))
    · exact absurd h nofun
  · rename_i spec hspec
    have hb := isHead_fieldBuilder hspec
    split at h
    · obtain rfl := Except.ok.inj h
      exact standing_fieldTest field hb (inline_rawTest (inline_literal _)).single
    · exact standing_simpleOperator hb h

theorem standing_codes {cs : List Condition} (h : ∀ c ∈ cs, Standing c.code) :
    ∀ c ∈ Condition.codes cs, Standing c := by
  intro c hc
  rw [Condition.codes_eq_map, List.mem_map] at hc
  obtain ⟨d, hd, rfl⟩ := hc
  exact h d hd

theorem standing_junction (connective : Connective) {cs : List Condition}
    (h : ∀ c ∈ cs, Standing c.code) : Standing (Condition.junction connective cs).code := by
  rw [Condition.code]
  exact standing_callLines (by cases connective <;> decide) (standing_codes h)

theorem standing_together {cs : List Condition} (h : ∀ c ∈ cs, Standing c.code) :
    Standing (Condition.together cs).code := by
  match cs with
  | [] =>
    rw [Condition.together, Condition.code]
    exact standing_call (by decide) inline_none
  | [c] => exact h c (by simp)
  | _ :: _ :: _ => exact standing_junction .and h

/-- **The conditions of every place are standing.** -/
theorem Derives.standing {fallback : Bool} {place : Place} {cs : List Condition}
    (h : Derives fallback place cs) : ∀ c ∈ cs, Standing c.code := by
  have cons {c : Condition} {cs : List Condition} (hc : Standing c.code)
      (hcs : ∀ d ∈ cs, Standing d.code) : ∀ d ∈ c :: cs, Standing d.code := by
    intro d hd
    rcases List.mem_cons.1 hd with rfl | hd
    · exact hc
    · exact hcs d hd
  induction h with
  | noPairs | noDocuments | noOperators => exact fun c hc => absurd hc List.not_mem_nil
  | logical _ _ _ ihd ihr => exact cons (standing_junction _ ihd) ihr
  | field _ _ _ _ _ ihd ihr =>
    intro c hc
    rcases List.mem_append.1 hc with hc | hc
    · exact ihd c hc
    · exact ihr c hc
  | plain _ _ hp _ ih => exact cons (standing_plainPair hp) ih
  | document _ _ ihd ihr => exact cons (standing_together ihd) ihr
  | flags _ ih => exact ih
  | body _ _ _ _ ihb ihr =>
    refine cons ?_ ihr
    rw [Condition.code]
    exact .last (.name (by decide)) (Inline.quoted _).single (standing_together ihb)
  | operator _ _ ht _ ih => exact cons (standing_operatorTest ht) ih

theorem standing_conditions {fallback : Bool} {fields : Fields} {cs : List Condition}
    (h : conditions fallback fields = .ok cs) : ∀ c ∈ cs, Standing c.code := by
  have hplace : (Place.pairs fields).conditions fallback = .ok cs := h
  exact (derives_of_conditions hplace).standing

theorem standing_links {fallback : Bool} {fields : Fields} {links : List Code}
    (h : Predicate.links fallback fields = .ok links) : ∀ c ∈ links, Standing c := by
  obtain ⟨cs, hcs, rfl⟩ := map_eq_ok.1 h
  intro c hc
  cases cs with
  | nil => exact absurd hc List.not_mem_nil
  | cons d ds =>
    rw [List.mem_singleton.1 hc]
    exact standing_together (standing_conditions hcs)

end Predicate

/-! ### Stages -/

namespace Pipeline

open QueryScribe.Predicate

theorem standing_raw (operator : String) (value : Value) : Standing (raw operator value) :=
  standing_method (by decide) (.pair (.quoted operator) (inline_literal value))

theorem standing_fieldCall {builder : String} (hb : isHead builder.toList = true)
    (field : String × Value) : Standing (fieldCall builder field) :=
  standing_call hb (.pair (.quoted field.1) (inline_expression field.2))

theorem standing_map {α : Type} {f : α → Code} (hf : ∀ a, Standing (f a)) (as : List α) :
    ∀ c ∈ as.map f, Standing c := by
  intro c hc
  obtain ⟨a, _, rfl⟩ := List.mem_map.1 hc
  exact hf a

theorem standing_addFields {name operator : String} {value : Value} {c : Code}
    (hn : isHead name.toList = true) (h : addFields name operator value = .ok c) : Standing c := by
  obtain ⟨added, _, h⟩ := bind_eq_ok.1 h
  obtain rfl := pure_eq_ok.1 h
  have call (field : String × Value) : Standing (fieldCall "AddField" field) :=
    standing_fieldCall (by decide) field
  exact standing_methodOf hn (standing_callLines (by decide) (standing_map call added))

theorem standing_listed {name operator : String} {value : Value} {c : Code}
    (hn : isHead name.toList = true) (h : listed name operator value = .ok c) : Standing c := by
  obtain ⟨fields, _, h⟩ := bind_eq_ok.1 h
  obtain rfl := pure_eq_ok.1 h
  have entry (field : String × Value) :
      Standing (composite "E" [.quoted field.1, field.2.literal]) :=
    .lines (.name (by decide)) (.pair (.quoted field.1) (inline_literal field.2)) standing_none
  exact standing_methodOf hn (.lines (.name (by decide)) inline_none (standing_map entry fields))

theorem standing_group {value : Value} {c : Code} (h : group value = .ok c) : Standing c := by
  obtain ⟨fields, _, h⟩ := bind_eq_ok.1 h
  obtain rfl := pure_eq_ok.1 h
  have accumulator (field : String × Value) : Standing (fieldCall "GroupAcc" field) :=
    standing_fieldCall (by decide) field
  refine standing_methodOf (by decide)
    (.lines (.name (by decide)) (Inline.single ?_) (standing_map accumulator _))
  split
  · exact inline_expression _
  · exact .word (by decide)

theorem standing_counted {name operator : String} {value : Value} {c : Code}
    (hn : isHead name.toList = true) (h : counted name operator value = .ok c) : Standing c := by
  unfold counted at h
  split at h
  · obtain rfl := Except.ok.inj h
    exact standing_method hn (inline_integer _).single
  · exact absurd h nofun

theorem standing_named {name : String} (operator : String) (value : Value)
    (hn : isHead name.toList = true) : Standing (named name operator value) := by
  unfold named
  split
  · exact standing_method hn (Inline.quoted _).single
  · exact standing_raw _ _

theorem standing_out (value : Value) : Standing (out value) := by
  unfold out
  split
  · exact standing_method (by decide) (.pair (.quoted _) (.quoted _))
  · exact standing_named _ _ (by decide)

theorem standing_matching {fallback : Bool} {value : Value} {c : Code}
    (h : matching fallback value = .ok c) : Standing c := by
  unfold matching at h
  split at h
  · obtain ⟨condition, hc, h⟩ := bind_eq_ok.1 h
    obtain rfl := pure_eq_ok.1 h
    obtain ⟨cs, hcs, rfl⟩ := map_eq_ok.1 hc
    exact standing_methodOf (by decide) (standing_together (standing_conditions hcs))
  · exact absurd h nofun

theorem standing_stage {fallback : Bool} {operator : String} {value : Value} {c : Code}
    (h : stage fallback operator value = .ok c) : Standing c := by
  unfold stage at h
  split at h
  · exact standing_matching h
  · exact standing_addFields (by decide) h
  · exact standing_addFields (by decide) h
  · exact standing_listed (by decide) h
  · exact standing_listed (by decide) h
  · exact standing_group h
  · exact standing_counted (by decide) h
  · exact standing_counted (by decide) h
  · rw [← Except.ok.inj h]
    exact standing_named _ _ (by decide)
  · rw [← Except.ok.inj h]
    exact standing_named _ _ (by decide)
  · rw [← Except.ok.inj h]
    exact standing_method (by decide) (inline_literal value).single
  · rw [← Except.ok.inj h]
    exact standing_method (by decide) (inline_literal value).single
  · rw [← Except.ok.inj h]
    exact standing_out value
  · rw [← Except.ok.inj h]
    exact standing_raw _ _

theorem standing_stageOf {fallback : Bool} {value : Value} {c : Code}
    (h : stageOf fallback value = .ok c) : Standing c := by
  unfold stageOf at h
  split at h
  · exact absurd h nofun
  · exact standing_stage h
  · exact absurd h nofun
  · exact absurd h nofun

theorem standing_stages {fallback : Bool} {stages : List Value} {calls : List Code}
    (h : stages.mapM (stageOf fallback) = .ok calls) : ∀ c ∈ calls, Standing c :=
  forall_of_mapM (fun _ _ => standing_stageOf) h

theorem standing_head : Standing (call "NewPipeline" []) := standing_call (by decide) inline_none

theorem standing_links {fallback : Bool} {stages : List Value} {links : List Code}
    (h : Pipeline.links fallback stages = .ok links) : ∀ c ∈ links, Standing c := by
  obtain ⟨calls, hcalls, h⟩ := bind_eq_ok.1 h
  obtain rfl := pure_eq_ok.1 h
  have each : ∀ c ∈ calls, Standing c := standing_stages hcalls
  intro c hc
  rcases List.mem_cons.1 hc with rfl | hc
  · exact standing_head
  · exact each c hc

end Pipeline

/-! ### Queries -/

/-- The package names of valid options can begin a line. -/
theorem Options.Valid.firmPackages {o : Options} (h : o.Valid) : FirmPackages o.packages := by
  obtain ⟨hbuilder, hbson⟩ := Options.valid_iff.1 h
  have apart : ('\n' :: marks).all (fun d => !continuesIdentifier d) = true := by decide +kernel
  have tame {s : List Char} (hs : isIdentifier s = true) : isTameText s = true :=
    isTameText_of_forall fun c hc => isTame_of_class apart (continuesIdentifier_of_mem hs hc)
  have begins {s : List Char} (hs : isIdentifier s = true) : Begins s := by
    obtain ⟨c, r, rfl, hc⟩ := exists_cons_of_isIdentifier hs
    exact begins_of_class (by decide +kernel) (by decide +kernel) r hc
  refine ⟨⟨?_, tame hbson⟩, fun package hne => ?_⟩
  · rcases hbuilder with he | hb
    · rw [Options.packages, he]
      rfl
    · exact tame hb
  · cases package with
    | builder =>
      rcases hbuilder with he | hb
      · exact absurd (congrArg String.toList he) hne
      · exact begins hb
    | bson => exact begins hbson

namespace Query

/-- **A chain of standing calls is laid out.** -/
theorem chain_formats {p : Packages} (hp : TamePackages p) {links : List Code}
    (h : ∀ c ∈ links, Standing c) :
    ∃ text, formatCode (String.ofList (chain p links)) = .ok text := by
  have point : Whole ['.'] := whole_of_tame (by decide)
  have whole : Whole (chain p links) := by
    refine whole_intercalate (point.append whole_newline) fun t ht => ?_
    obtain ⟨c, hc, rfl⟩ := List.mem_map.1 ht
    exact whole_render hp (h c hc).tame
  obtain ⟨text, ht⟩ := whole.format_ok
  exact ⟨String.ofList text, by rw [formatCode, String.toList_ofList, ht]⟩

/-- An outcome that is code, or a fault of the query itself. -/
inductive Answered : Except QueryError String → Prop
  | code (text : String) : Answered (.ok text)
  | malformed (failure : Json.Failure) : Answered (.error (.malformed failure))
  | shape (expected : QueryShape) (kind : String) : Answered (.error (.shape expected kind))
  | rule (fault : RuleFault) : Answered (.error (.rule fault))
  | unsupported (operator : String) : Answered (.error (.unsupported operator))

section Valid

variable {o : Options} (ho : o.Valid)
include ho

theorem answered_write {r : Predicate.Result (List Code)}
    (h : ∀ links, r = .ok links → ∀ c ∈ links, Standing c) : Answered (write o r) := by
  cases r with
  | ok links =>
    obtain ⟨text, ht⟩ := chain_formats ho.firmPackages.tame (h links rfl)
    rw [write, ht]
    exact .code text
  | error e =>
    cases e with
    | fault f => exact .rule f
    | unsupported operator => exact .unsupported operator

theorem answered_ofFilter (fields : Fields) : Answered (ofFilter o fields) :=
  answered_write ho fun _ h => Predicate.standing_links h

theorem answered_ofPipeline (stages : List Value) : Answered (ofPipeline o stages) :=
  answered_write ho fun _ h => Pipeline.standing_links h

theorem answered_ofValue (v : Value) : Answered (ofValue o v) := by
  unfold ofValue
  split
  · exact answered_ofPipeline ho _
  · exact answered_ofFilter ho _
  · exact .shape _ _

theorem answered_ofFilterText (text : String) : Answered (ofFilterText o text) := by
  unfold ofFilterText readValue
  cases Value.ofText text with
  | error failure => exact .malformed failure
  | ok v =>
    cases v with
    | document fields => exact answered_ofFilter ho fields
    | _ => exact .shape _ _

theorem answered_ofPipelineText (text : String) : Answered (ofPipelineText o text) := by
  unfold ofPipelineText readValue
  cases Value.ofText text with
  | error failure => exact .malformed failure
  | ok v =>
    cases v with
    | array stages => exact answered_ofPipeline ho stages
    | _ => exact .shape _ _

theorem answered_ofText (text : String) : Answered (ofText o text) := by
  unfold ofText
  dsimp only
  split
  · exact answered_ofPipelineText ho _
  · exact answered_ofFilterText ho _

/-- **The layout never rejects generated code.**  With valid options every value and every text
has an outcome that is code, or a fault in the query. -/
theorem answered (v : Value) (text : String) :
    Answered (ofValue o v) ∧ Answered (ofText o text) ∧ Answered (ofFilterText o text)
      ∧ Answered (ofPipelineText o text) :=
  ⟨answered_ofValue ho v, answered_ofText ho text, answered_ofFilterText ho text,
    answered_ofPipelineText ho text⟩

end Valid

/-- A document with a quote and a bracket in a key, under the standard options. -/
theorem answered_quotes :
    Options.standard.Valid
      ∧ Answered (ofValue .standard (.document [("a\")\x7b", .string "\n")]))
      ∧ Answered (ofText .standard "[\x7b\x7d") ∧ Answered (ofFilterText .standard "[\x7b\x7d")
      ∧ Answered (ofPipelineText .standard "[\x7b\x7d") :=
  ⟨Options.standard_valid,
    answered Options.standard_valid (.document [("a\")\x7b", .string "\n")]) "[\x7b\x7d"⟩

end Query

end QueryScribe
