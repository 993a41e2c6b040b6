import QueryScribe.Proofs.Code.Queries

/-!
# Pipelines end to end

The code of a pipeline is its head and then the code of its stages, one after another:
`ofPipeline_eq`.  Each stage is a standing call, so the layout pass leaves it as it
found it, on whichever line and between whichever other stages it stands; and the head
has already begun the chain, so that the point behind a stage begins nothing.  A pipeline
fails as the first of its stages does that fails.  So pipelines one behind the other have
the code of the one and then the stages of the other.
-/

namespace QueryScribe.Query

open QueryScribe.Text QueryScribe.Layout QueryScribe.Code QueryScribe.Outcome

def head (o : Options) : String := String.ofList (render o.packages (call "NewPipeline" []))

example : head .standard = "gmqb.NewPipeline()" := by decide +kernel

/-- The code of one stage, as it stands behind the tab that it has in a chain. -/
def stageCode (o : Options) (v : Value) : Except QueryError String :=
  ((Pipeline.stageOf o.rawFilterFallback v).map fun c =>
    String.ofList (laid o.packages 1 c)).mapError .ofBuilder

def joined (codes : List String) : String := String.join (codes.map (".\n\t" ++ ·))

theorem joined_cons (code : String) (codes : List String) :
    joined (code :: codes) = ".\n\t" ++ code ++ joined codes := String.join_cons

theorem joined_append (codes more : List String) :
    joined (codes ++ more) = joined codes ++ joined more := by
  rw [joined, List.map_append, String.join_append, joined, joined]

theorem toList_joined (codes : List (List Char)) :
    (joined (codes.map String.ofList)).toList
      = codes.flatMap fun code => '.' :: '\n' :: '\t' :: code := by
  rw [joined, String.toList_join, List.map_map, List.flatMap_map]
  simp

/-- The text of a pipeline's calls, by characters. -/
theorem head_append_joined (o : Options) (calls : List Code) :
    head o ++ joined (calls.map fun c => String.ofList (laid o.packages 1 c))
      = String.ofList (render o.packages (call "NewPipeline" [])
        ++ calls.flatMap fun c => '.' :: '\n' :: '\t' :: laid o.packages 1 c) := by
  have := toList_joined (calls.map (laid o.packages 1))
  rw [List.map_map, List.flatMap_map] at this
  rw [String.ofList_append, ← this, String.ofList_toList, head]
  rfl

theorem mapM_stageCode (o : Options) (stages : List Value) :
    stages.mapM (stageCode o) = ((stages.mapM (Pipeline.stageOf o.rawFilterFallback)).map
      (List.map fun c => String.ofList (laid o.packages 1 c))).mapError .ofBuilder :=
  mapM_map_mapError (Pipeline.stageOf o.rawFilterFallback) _ _ stages

theorem eq_map_of_mapM_stageCode {o : Options} {stages : List Value} {codes : List String}
    (h : stages.mapM (stageCode o) = .ok codes) :
    codes = stages.map fun v => (stageCode o v).toOption.getD "" := by
  induction stages generalizing codes with
  | nil => exact (pure_eq_ok.1 h).symm
  | cons v r ih =>
    obtain ⟨code, hcode, rest, hr, rfl⟩ := mapM_cons_eq_ok.1 h
    rw [List.map_cons, hcode, ih hr]
    rfl

section Valid

variable {o : Options} (ho : o.Valid)
include ho

/-- The layout of the chain of a pipeline's calls. -/
theorem formatCode_chain {calls : List Code} (h : ∀ c ∈ calls, Standing c) :
    formatCode (String.ofList (chain o.packages (call "NewPipeline" [] :: calls)))
      = .ok (head o ++ joined (calls.map fun c => String.ofList (laid o.packages 1 c))) := by
  have hname : Head (.name .builder "NewPipeline") := .name (by decide)
  have hhead := leads_inline ho.firmPackages hname .round inline_none
  have hformat := format_chain hhead (ends_call _ _ _ _ _) fun c hc =>
    settled_render ho.firmPackages (h c hc)
  rw [formatCode, String.toList_ofList, chain, List.map_cons, call, hformat, head_append_joined]
  rfl

/-- **The code of a pipeline**: its head, and the code of each stage in order. -/
theorem ofPipeline_eq (stages : List Value) :
    ofPipeline o stages = (stages.mapM (stageCode o)).map (head o ++ joined ·) := by
  rw [ofPipeline, Pipeline.links, mapM_stageCode]
  cases h : stages.mapM (Pipeline.stageOf o.rawFilterFallback) with
  | error e => rfl
  | ok calls => exact formatCode_chain ho (Pipeline.standing_stages h)

theorem ofPipeline_eq_ok {stages : List Value} {text : String} :
    ofPipeline o stages = .ok text
      ↔ ∃ codes, stages.mapM (stageCode o) = .ok codes ∧ head o ++ joined codes = text := by
  rw [ofPipeline_eq ho, map_eq_ok]

theorem ofPipeline_eq_error {stages : List Value} {e : QueryError} :
    ofPipeline o stages = .error e ↔ stages.mapM (stageCode o) = .error e := by
  rw [ofPipeline_eq ho, map_eq_error]

/-- **Pipelines concatenate.**  Behind the code of one pipeline stand the stages of the other, as
they stand behind its own head; the one fails first if both fail.  The code of a stage is the same
in every pipeline. -/
theorem ofPipeline_append (p q : List Value) :
    (∀ P Q, ofPipeline o p = .ok P → ofPipeline o q = .ok (head o ++ ".\n\t" ++ Q) →
        ofPipeline o (p ++ q) = .ok (P ++ ".\n\t" ++ Q))
      ∧ (∀ e, ofPipeline o p = .error e → ofPipeline o (p ++ q) = .error e)
      ∧ (∀ P e, ofPipeline o p = .ok P → ofPipeline o q = .error e →
        ofPipeline o (p ++ q) = .error e)
      ∧ (q ≠ [] → ∀ R, ofPipeline o q = .ok R → ∃ Q, R = head o ++ ".\n\t" ++ Q)
      ∧ ∃ code : Value → String, ∀ stages R, ofPipeline o stages = .ok R →
        R = head o ++ String.join (stages.map fun v => ".\n\t" ++ code v) := by
  have happend : (p ++ q).mapM (stageCode o) = do
      let ps ← p.mapM (stageCode o)
      let qs ← q.mapM (stageCode o)
      return ps ++ qs := List.mapM_append
  refine ⟨fun P Q hP hQ => ?both, fun e he => ?first, fun P e hP he => ?second,
    fun hq R hR => ?form, fun v => (stageCode o v).toOption.getD "", fun stages R hR => ?alone⟩
  case both =>
    obtain ⟨ps, hps, rfl⟩ := (ofPipeline_eq_ok ho).1 hP
    obtain ⟨qs, hqs, hjoin⟩ := (ofPipeline_eq_ok ho).1 hQ
    rw [String.append_assoc, String.append_right_inj] at hjoin
    refine (ofPipeline_eq_ok ho).2 ⟨ps ++ qs, by rw [happend, hps, hqs]; rfl, ?_⟩
    rw [joined_append, hjoin, String.append_assoc, String.append_assoc]
  case first =>
    rw [ofPipeline_eq_error ho] at he ⊢
    rw [happend, he]
    rfl
  case second =>
    obtain ⟨ps, hps, rfl⟩ := (ofPipeline_eq_ok ho).1 hP
    rw [ofPipeline_eq_error ho] at he ⊢
    rw [happend, hps, he]
    rfl
  case form =>
    obtain ⟨codes, hcodes, rfl⟩ := (ofPipeline_eq_ok ho).1 hR
    obtain ⟨v, r, rfl⟩ := List.exists_cons_of_ne_nil hq
    obtain ⟨code, _, rest, _, rfl⟩ := mapM_cons_eq_ok.1 hcodes
    exact ⟨code ++ joined rest, by rw [joined_cons, String.append_assoc, String.append_assoc]⟩
  case alone =>
    obtain ⟨codes, hcodes, rfl⟩ := (ofPipeline_eq_ok ho).1 hR
    rw [eq_map_of_mapM_stageCode hcodes, joined, List.map_map]
    rfl

end Valid

/-- A stage on three lines in front of a stage on one, and in front of one that is none, under the
standard options. -/
theorem ofPipeline_append_set :
    Options.standard.Valid
      ∧ ofPipeline .standard ([.document [("$set", .document [("a", .null)])]]
        ++ [.document [("$limit", .int32 1)]]) = .ok ("gmqb.NewPipeline().\n\tSetFields("
          ++ "gmqb.AddFieldsSpec(\n\t\tgmqb.AddField(\"a\", nil),\n\t))" ++ ".\n\t" ++ "Limit(1)")
      ∧ ofPipeline .standard ([.document [("$set", .document [("a", .null)])]] ++ [.document []])
        = .error (.rule .emptyStage) := by
  obtain ⟨both, _⟩ := ofPipeline_append Options.standard_valid
    [.document [("$set", .document [("a", .null)])]] [.document [("$limit", .int32 1)]]
  obtain ⟨_, _, second, _⟩ := ofPipeline_append Options.standard_valid
    [.document [("$set", .document [("a", .null)])]] [.document []]
  exact ⟨Options.standard_valid, both _ "Limit(1)" (by decide +kernel) (by decide +kernel),
    second ("gmqb.NewPipeline().\n\tSetFields(gmqb.AddFieldsSpec("
      ++ "\n\t\tgmqb.AddField(\"a\", nil),\n\t))") _ (by decide +kernel) (by decide +kernel)⟩

end QueryScribe.Query
