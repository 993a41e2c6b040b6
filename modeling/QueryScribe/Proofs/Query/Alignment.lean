import QueryScribe.Proofs.Layout.Alignment
import QueryScribe.Proofs.Query.Nesting

/-!
# Closing lines of generated code

The code of a query is a chain of standing calls, and so is ranged when it is laid out: a
predicate is one call, and a pipeline has its stages behind one tab, below the line
of its head.  So in all generated code a line that starts with closers closes what one earlier
line opened, and stands under it.
-/

namespace QueryScribe.Query

open QueryScribe.Text QueryScribe.Layout QueryScribe.Code QueryScribe.Outcome

section Valid

variable {o : Options} (ho : o.Valid)
include ho

/-- The code of a predicate is empty, or that of one call. -/
theorem ranged_ofFilter {fields : Fields} {text : String} (h : ofFilter o fields = .ok text) :
    text = "" ∨ Ranged 0 text.toList := by
  rw [ofFilter] at h
  cases hlinks : Predicate.links o.rawFilterFallback fields with
  | error e => rw [hlinks] at h; cases h
  | ok links =>
    rw [hlinks, write] at h
    have hstanding := Predicate.standing_links hlinks
    obtain ⟨cs, _, rfl⟩ := map_eq_ok.1 hlinks
    cases cs with
    | nil => exact .inl (Except.ok.inj h).symm
    | cons d ds =>
      have hcall := hstanding _ List.mem_cons_self
      obtain rfl := Except.ok.inj ((formatCode_single ho hcall).symm.trans h)
      have hranged := ((settled_render ho.firmPackages hcall).block (.inl rfl)).ranged 0
      rw [List.append_nil] at hranged
      exact .inr (String.toList_ofList ▸ hranged)

theorem ranged_ofPipeline {stages : List Value} {text : String}
    (h : ofPipeline o stages = .ok text) : Ranged 0 text.toList := by
  rw [ofPipeline, Pipeline.links] at h
  cases hcalls : stages.mapM (Pipeline.stageOf o.rawFilterFallback) with
  | error e => rw [hcalls] at h; cases h
  | ok calls =>
    rw [hcalls] at h
    have hstanding := Pipeline.standing_stages hcalls
    obtain rfl := Except.ok.inj ((formatCode_chain ho hstanding).symm.trans h)
    rw [head_append_joined, String.toList_ofList]
    have hname : Head (.name .builder "NewPipeline") := .name (by decide)
    exact ranged_chain (leads_inline ho.firmPackages hname .round inline_none)
      (ends_call _ _ _ _ _) fun c hc => settled_render ho.firmPackages (hstanding c hc)

/-- **Closing lines stand under the lines that they close.**  In the code of a value each line that
starts with closers closes what one earlier line leaves open, and has the tabs of
that line; the lines between the two have more.  No line is blank or ends in white space. -/
theorem closing_lines_align {v : Value} {text : String} (h : ofValue o v = .ok text) :
    LinedUp (rows text.toList) ∧ ∀ l ∈ rows text.toList, Ends l := by
  have hranged : text = "" ∨ Ranged 0 text.toList := by
    unfold ofValue at h
    split at h
    · exact .inr (ranged_ofPipeline ho h)
    · exact ranged_ofFilter ho h
    · exact absurd h nofun
  rcases hranged with rfl | hranged
  · refine ⟨fun before row after hsplit _ => ?_, fun l hl => absurd hl List.not_mem_nil⟩
    exact absurd hsplit.symm (List.append_ne_nil_of_right_ne_nil _ (List.cons_ne_nil _ _))
  · rw [hranged.rows_eq]
    exact ⟨hranged.linedUp, hranged.ends⟩

end Valid

/-- A stage whose last line closes the two brackets of its first, under the standard options. -/
theorem closing_lines_align_set :
    Options.standard.Valid
      ∧ ofValue .standard (.array [.document [("$set", .document [("a", .null)])]])
        = .ok ("gmqb.NewPipeline().\n\tSetFields(gmqb.AddFieldsSpec("
          ++ "\n\t\tgmqb.AddField(\"a\", nil),\n\t))")
      ∧ LinedUp (rows ("gmqb.NewPipeline().\n\tSetFields(gmqb.AddFieldsSpec("
        ++ "\n\t\tgmqb.AddField(\"a\", nil),\n\t))").toList) := by
  have h : ofValue .standard (.array [.document [("$set", .document [("a", .null)])]])
      = .ok ("gmqb.NewPipeline().\n\tSetFields(gmqb.AddFieldsSpec("
        ++ "\n\t\tgmqb.AddField(\"a\", nil),\n\t))") := by decide +kernel
  exact ⟨Options.standard_valid, h, (closing_lines_align Options.standard_valid h).1⟩

end QueryScribe.Query
