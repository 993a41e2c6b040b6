import QueryScribe.Proofs.Code.Quiet
import QueryScribe.Proofs.Text.Trim
import QueryScribe.Proofs.Value.RoundTrip

/-!
# Filters and pipelines are told apart by the value

Whether a text is a filter or a pipeline is decided by its first character, before it
is read.  The value says the same afterwards: what is read of a text is an array exactly
if the text begins with a bracket (`isArray_eq_head`).  So the code of a text is the
code of the value (`ofText_eq_ofValue`), and it is the same code for each text of
the value, as these are trimmed and are read as its quiet form.
-/

namespace QueryScribe

open QueryScribe.Text QueryScribe.Json

/-! ### Trimmed texts -/

namespace Text

/-- A text between two characters that are not blank is trimmed. -/
theorem trim_between {c d : Char} (hc : isBlank c = false) (hd : isBlank d = false)
    (inner : List Char) : trim (c :: (inner ++ [d])) = c :: (inner ++ [d]) := by
  rw [trim, trimStart_cons_of_not_blank _ hc, ← List.cons_append,
    trimEnd_concat_of_not_blank _ hd]

theorem isBlank_of_isSpace {c : Char} (h : State.isSpace c = true) : isBlank c = true := by
  simp only [State.isSpace, Bool.or_eq_true, decide_eq_true_eq] at h
  rcases h with ((rfl | rfl) | rfl) | rfl
  · decide
  · decide
  · decide
  · decide

end Text

/-! ### Encodings -/

namespace Json

theorem exists_between (gap : Nat → List Char) (depth : Nat) (left right : Char)
    (parts : List (List Char)) :
    ∃ inner, between gap depth left right parts = left :: (inner ++ [right]) := by
  cases parts with
  | nil => exact ⟨[], rfl⟩
  | cons part parts =>
    refine ⟨gap (depth + 1) ++ (part ++ (parts.flatMap ((',' :: gap (depth + 1)) ++ ·)
      ++ gap depth)), ?_⟩
    rw [between]
    simp only [List.append_assoc, List.cons_append]

end Json

namespace Value

def isDocument : Value → Bool
  | document _ => true
  | _ => false

/-- The texts of a document and of an array are trimmed. -/
theorem trim_spread {v : Value} (h : v.isDocument = true ∨ v.isArray = true)
    (gap : Nat → List Char) (space : List Char) :
    trim (spread gap space 0 v.toJson) = spread gap space 0 v.toJson := by
  cases v with
  | document fields =>
    obtain ⟨inner, hinner⟩ := exists_between gap 0 '\x7b' '\x7d'
      (spreadMembers gap space 1 (fieldsToJson fields))
    rw [toJson, spread, hinner, trim_between (by decide) (by decide)]
  | array items =>
    obtain ⟨inner, hinner⟩ := exists_between gap 0 '[' ']'
      (spreadItems gap space 1 (itemsToJson items))
    rw [toJson, spread, hinner, trim_between (by decide) (by decide)]
  | _ => rcases h with h | h <;> exact absurd h nofun

theorem isDocument_quiet (v : Value) : v.quiet.isDocument = v.isDocument := by
  cases v <;> rfl

theorem isArray_quiet (v : Value) : v.quiet.isArray = v.isArray := by
  cases v <;> rfl

end Value

namespace Query

theorem trimmed_toText {v : Value} (h : v.isDocument = true ∨ v.isArray = true) :
    trimmed v.toText = v.toText := by
  rw [trimmed, Value.toText, Value.compact, String.toList_ofList, compact_eq_spread 0,
    Value.trim_spread h]

theorem trimmed_toPrettyText {v : Value} (h : v.isDocument = true ∨ v.isArray = true) :
    trimmed v.toPrettyText = v.toPrettyText := by
  rw [trimmed, Value.toPrettyText, Value.pretty, String.toList_ofList, Json.pretty,
    prettyAt_eq_spread, Value.trim_spread h]

/-! ### Dispatch -/

variable {o : Options} {t : String} {v : Value}

/-- **A trimmed text begins with a bracket exactly if it is read as an array.** -/
theorem isArray_eq_head (h : Value.ofText (trimmed t) = .ok v) :
    v.isArray = decide ((trimmed t).toList.head? = some '[') := by
  obtain ⟨spaces, c, r, htext, hspaces, _, _, harray⟩ := readWith_made Value.assembly_makes h
  cases spaces with
  | nil =>
    rw [harray, htext]
    simp
  | cons d spaces =>
    have htrim : trim t.toList = d :: (spaces ++ c :: r) := by
      rw [trimmed, String.toList_ofList] at htext
      exact htext
    have hblank := isBlank_of_isSpace (hspaces d List.mem_cons_self)
    rw [isBlank_of_trim htrim] at hblank
    exact absurd hblank (by decide)

theorem readValue_eq_ok {text : String} (h : Value.ofText text = .ok v) :
    readValue text = .ok v := by
  rw [readValue, h]
  rfl

theorem ofFilterText_document {text : String} {fields : Fields}
    (h : Value.ofText text = .ok (.document fields)) :
    ofFilterText o text = ofValue o (.document fields) := by
  rw [ofFilterText, readValue_eq_ok h]
  rfl

theorem ofPipelineText_array {text : String} {stages : List Value}
    (h : Value.ofText text = .ok (.array stages)) :
    ofPipelineText o text = ofValue o (.array stages) := by
  rw [ofPipelineText, readValue_eq_ok h]
  rfl

theorem ofText_bracket (h : Value.ofText (trimmed t) = .ok v) (harray : v.isArray = true) :
    ofText o t = ofPipelineText o (trimmed t) := by
  rw [isArray_eq_head h, decide_eq_true_eq] at harray
  exact if_pos harray

theorem ofText_other (h : Value.ofText (trimmed t) = .ok v) (harray : v.isArray = false) :
    ofText o t = ofFilterText o (trimmed t) := by
  rw [isArray_eq_head h, decide_eq_false_iff_not] at harray
  exact if_neg harray

/-- **The code of a text is the code of its value.** -/
theorem ofText_eq_ofValue (h : Value.ofText (trimmed t) = .ok v)
    (hshape : v.isDocument = true ∨ v.isArray = true) : ofText o t = ofValue o v := by
  cases v with
  | document fields => rw [ofText_other h rfl, ofFilterText_document h]
  | array stages => rw [ofText_bracket h rfl, ofPipelineText_array h]
  | _ => rcases hshape with h | h <;> exact absurd h nofun

/-- **Both encodings of a value have its code.** -/
theorem ofText_encodings (h : v.Decoded) (hshape : v.isDocument = true ∨ v.isArray = true)
    (hdepth : v.toJson.depth ≤ 127) :
    ofText o v.toText = ofValue o v ∧ ofText o v.toPrettyText = ofValue o v := by
  have hquiet : v.quiet.isDocument = true ∨ v.quiet.isArray = true := by
    rwa [Value.isDocument_quiet, Value.isArray_quiet]
  have hcompact : Value.ofText (trimmed v.toText) = .ok v.quiet := by
    rw [trimmed_toText hshape]
    exact h.ofText_toText hdepth
  have hpretty : Value.ofText (trimmed v.toPrettyText) = .ok v.quiet := by
    rw [trimmed_toPrettyText hshape]
    exact h.ofText_toPrettyText hdepth
  rw [ofText_eq_ofValue hcompact hquiet, ofText_eq_ofValue hpretty hquiet, ofValue_quiet]
  exact ⟨rfl, rfl⟩

/-- A text that is read as neither a document nor an array is refused for its shape. -/
theorem ofText_neither (h : Value.ofText (trimmed t) = .ok v) (hdocument : v.isDocument = false)
    (harray : v.isArray = false) : ofText o t = .error (.shape .object v.kind) := by
  rw [ofText_other h harray, ofFilterText, readValue_eq_ok h, Outcome.ok_bind]
  cases v with
  | document fields => exact absurd hdocument nofun
  | _ => rfl

/-- A text that cannot be read is refused for the fault of the reader. -/
theorem ofText_malformed {failure : Failure} (h : Value.ofText (trimmed t) = .error failure) :
    ofText o t = .error (.malformed failure) := by
  have hread : readValue (trimmed t) = .error (.malformed failure) := by
    rw [readValue, h]
    rfl
  rw [ofText]
  split
  · rw [ofPipelineText, hread]
    rfl
  · rw [ofFilterText, hread]
    rfl

/-- **Code depends on the value only.**  The text of a document or an array, the value itself and
both of its encodings have the same code or the same error, which is also that of the filter
or the pipeline.  Every other text is refused: for its shape if it can be read, and else for
what makes it unreadable. -/
theorem generation_by_value (o : Options) (t : String) :
    (∀ v, Value.ofText (trimmed t) = .ok v → v.isDocument = true ∨ v.isArray = true →
      v.toJson.depth ≤ 127 →
        ofText o t = ofValue o v ∧ ofText o v.toText = ofValue o v
          ∧ ofText o v.toPrettyText = ofValue o v)
      ∧ (∀ fields, Value.ofText (trimmed t) = .ok (.document fields) →
        ofText o t = ofFilterText o (trimmed t))
      ∧ (∀ stages, Value.ofText (trimmed t) = .ok (.array stages) →
        ofText o t = ofPipelineText o (trimmed t))
      ∧ (∀ v, Value.ofText (trimmed t) = .ok v → v.isDocument = false → v.isArray = false →
        ofText o t = .error (.shape .object v.kind))
      ∧ (∀ failure, Value.ofText (trimmed t) = .error failure →
        ofText o t = .error (.malformed failure)) := by
  refine ⟨?_, ?_, ?_, ?_, ?_⟩
  · intro v h hshape hdepth
    exact ⟨ofText_eq_ofValue h hshape,
      ofText_encodings (Value.decoded_of_ofText h) hshape hdepth⟩
  · intro fields h
    exact ofText_other h rfl
  · intro stages h
    exact ofText_bracket h rfl
  · intro v h hdocument harray
    exact ofText_neither h hdocument harray
  · intro failure h
    exact ofText_malformed h

/-- An empty pipeline between blanks, and a number, which is no query. -/
theorem generation_by_value_blanks :
    ofText .standard " [] " = ofValue .standard (.array [])
      ∧ ofText .standard " [] " = ofPipelineText .standard "[]"
      ∧ ofText .standard "null" = .error (.shape .object "null") := by
  have htrimmed : trimmed " [] " = "[]" := by decide
  have hread : Value.ofText (trimmed " [] ") = .ok (.array []) := by
    rw [htrimmed]
    rfl
  have hnull : Value.ofText (trimmed "null") = .ok .null := by rfl
  obtain ⟨hvalue, _, hpipeline, _, _⟩ := generation_by_value .standard " [] "
  obtain ⟨_, _, _, hneither, _⟩ := generation_by_value .standard "null"
  refine ⟨(hvalue _ hread (.inr rfl) (by decide)).1, ?_, hneither _ hnull rfl rfl⟩
  rw [← htrimmed]
  exact hpipeline [] hread

end Query

end QueryScribe
