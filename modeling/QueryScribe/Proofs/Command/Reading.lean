import QueryScribe.Proofs.Command.Escapes

/-!
# What a query that may be escaped means

`Reading` says which value a text stands for when it may have been escaped for a shell: its own
value, or the value of the text without the escapes if it has none.  That is the value
whose extended JSON is written (`value_eq_ok_iff`).  Code is made of the same value, but for one
kind of text: the attempt to make code also fails for a value that breaks a rule of its
operators, and then it is made again though the text could be read.  `code_of_reading` says
exactly when there is code, and `code_of_operator_with_quotes` is a text of that kind.
-/

namespace QueryScribe.Query

open QueryScribe.Outcome

def unescaped (text : String) : String := String.ofList (Shell.unescape text.toList)

/-- What a text stands for: its own value, or without one that of the text without escapes. -/
inductive Reading (t : String) : Value → Prop
  | plain {v : Value} : readValue (trimmed t) = .ok v → Reading t v
  | escaped {e : QueryError} {v : Value} : readValue (trimmed t) = .error e →
      Shell.hasEscapedQuote t.toList = true → readValue (trimmed (unescaped t)) = .ok v → Reading t v

/-- The second attempt counts only where the first has failed and the text has an escaped quote. -/
theorem retrying_eq_ok_iff {α : Type} {attempt : String → Except QueryError α} {t : String} {a : α} :
    retrying true attempt t = .ok a ↔ attempt t = .ok a
      ∨ (∃ e, attempt t = .error e) ∧ Shell.hasEscapedQuote t.toList = true
        ∧ attempt (unescaped t) = .ok a := by
  rw [retrying, unescaped, Bool.true_and]
  cases attempt t with
  | ok b => simp
  | error e =>
    by_cases hq : Shell.hasEscapedQuote t.toList = true
    · dsimp only
      rw [if_pos hq]
      cases attempt (String.ofList (Shell.unescape t.toList)) with
      | ok b => simp [hq]
      | error f => simp
    · dsimp only
      rw [if_neg hq]
      simp [hq]

theorem value_eq_ok_iff {t : String} {v : Value} : value true t = .ok v ↔ Reading t v := by
  rw [value, retrying_eq_ok_iff]
  constructor
  · rintro (h | ⟨⟨e, he⟩, hq, h⟩)
    · exact .plain h
    · exact .escaped he hq h
  · intro h
    cases h with
    | plain h => exact .inl h
    | escaped he hq h => exact .inr ⟨⟨_, he⟩, hq, h⟩

theorem ofValue_neither {o : Options} {v : Value} (hdocument : v.isDocument = false)
    (harray : v.isArray = false) : ofValue o v = .error (.shape .either v.kind) := by
  cases v with
  | document fields => exact absurd hdocument nofun
  | array stages => exact absurd harray nofun
  | _ => rfl

/-- **One attempt** gives code exactly if the text can be read and its value has code. -/
theorem ofText_eq_ok_iff {o : Options} {t c : String} :
    ofText o t = .ok c ↔ ∃ v, readValue (trimmed t) = .ok v ∧ ofValue o v = .ok c := by
  cases h : Value.ofText (trimmed t) with
  | error failure =>
    rw [ofText_malformed h, readValue, h]
    simp [Except.mapError]
  | ok v =>
    rw [readValue_eq_ok h]
    have hvalue : ofText o t = .ok c ↔ ofValue o v = .ok c := by
      by_cases hshape : v.isDocument = true ∨ v.isArray = true
      · rw [ofText_eq_ofValue h hshape]
      · rw [not_or, Bool.not_eq_true, Bool.not_eq_true] at hshape
        rw [ofText_neither h hshape.1 hshape.2, ofValue_neither hshape.1 hshape.2]
        simp
    rw [hvalue]
    constructor
    · intro hc
      exact ⟨v, rfl, hc⟩
    · rintro ⟨w, hw, hc⟩
      cases hw
      exact hc

/-- One attempt fails exactly if it has no value that has code. -/
theorem ofText_fails_iff {o : Options} {t : String} :
    (∃ e, ofText o t = .error e)
      ↔ ∀ v, readValue (trimmed t) = .ok v → ∃ e, ofValue o v = .error e := by
  constructor
  · rintro ⟨e, he⟩ v hv
    cases h : ofValue o v with
    | error f => exact ⟨f, rfl⟩
    | ok c =>
      have hc := ofText_eq_ok_iff.2 ⟨v, hv, h⟩
      rw [he] at hc
      cases hc
  · intro h
    cases hfirst : ofText o t with
    | error e => exact ⟨e, rfl⟩
    | ok c =>
      obtain ⟨v, hv, hc⟩ := ofText_eq_ok_iff.1 hfirst
      obtain ⟨e, he⟩ := h v hv
      rw [hc] at he
      cases he

theorem code_auto_eq_ok_iff {o : Options} (ho : o.unescapeFallback = true) {t c : String} :
    code o .auto t = .ok c ↔ ofText o t = .ok c
      ∨ (∃ e, ofText o t = .error e) ∧ Shell.hasEscapedQuote t.toList = true
        ∧ ofText o (unescaped t) = .ok c := by
  rw [code, ho]
  exact retrying_eq_ok_iff

/-- **Code is the code of the reading**, or of the text without escapes where that of the text
itself cannot be made.  So a text that can be read and whose value has code never stands for
anything else. -/
theorem code_of_reading (o : Options) (ho : o.unescapeFallback = true) (t : String) :
    (∀ v, value true t = .ok v ↔ Reading t v)
      ∧ (∀ c, code o .auto t = .ok c ↔
        (∃ v, Reading t v ∧ ofValue o v = .ok c)
          ∨ ∃ v e w, readValue (trimmed t) = .ok v ∧ ofValue o v = .error e
            ∧ Shell.hasEscapedQuote t.toList = true
            ∧ readValue (trimmed (unescaped t)) = .ok w ∧ ofValue o w = .ok c)
      ∧ ∀ v c, readValue (trimmed t) = .ok v → ofValue o v = .ok c → code o .auto t = .ok c := by
  refine ⟨fun v => value_eq_ok_iff, fun c => ⟨?reading, ?made⟩, ?itself⟩
  case reading =>
    intro h
    rcases (code_auto_eq_ok_iff ho).1 h with h | ⟨hfails, hq, h⟩
    · obtain ⟨v, hv, hc⟩ := ofText_eq_ok_iff.1 h
      exact .inl ⟨v, .plain hv, hc⟩
    · obtain ⟨w, hw, hc⟩ := ofText_eq_ok_iff.1 h
      cases hread : readValue (trimmed t) with
      | error f => exact .inl ⟨w, .escaped hread hq hw, hc⟩
      | ok v =>
        obtain ⟨e, he⟩ := ofText_fails_iff.1 hfails v hread
        exact .inr ⟨v, e, w, rfl, he, hq, hw, hc⟩
  case made =>
    intro h
    rw [code_auto_eq_ok_iff ho]
    rcases h with ⟨v, hr, hc⟩ | ⟨v, e, w, hv, he, hq, hw, hc⟩
    · cases hr with
      | plain hv => exact .inl (ofText_eq_ok_iff.2 ⟨v, hv, hc⟩)
      | escaped he hq hv =>
        refine .inr ⟨ofText_fails_iff.2 ?_, hq, ofText_eq_ok_iff.2 ⟨v, hv, hc⟩⟩
        intro u hu
        rw [he] at hu
        cases hu
    · refine .inr ⟨ofText_fails_iff.2 ?_, hq, ofText_eq_ok_iff.2 ⟨w, hw, hc⟩⟩
      intro u hu
      rw [hv] at hu
      cases hu
      exact ⟨e, he⟩
  case itself =>
    intro v c hv hc
    exact (code_auto_eq_ok_iff ho).2 (.inl (ofText_eq_ok_iff.2 ⟨v, hv, hc⟩))

/-- A filter that was escaped for a shell. -/
theorem code_of_reading_escaped :
    Options.standard.unescapeFallback = true
      ∧ code .standard .auto "\x7b\\\"a\\\": null\x7d" = .ok "gmqb.Eq(\"a\", nil)" := by
  obtain ⟨_, hcode, _⟩ := code_of_reading .standard rfl "\x7b\\\"a\\\": null\x7d"
  have hvalue : value true "\x7b\\\"a\\\": null\x7d" = .ok (.document [("a", .null)]) := by rfl
  exact ⟨rfl, (hcode _).2 (.inl ⟨_, value_eq_ok_iff.1 hvalue, by decide +kernel⟩)⟩

/-- **A text that can be read may have the code of another query.**  Its one operator has escaped
quotes in its name and no builder; without the backslashes it is a document of two fields, which
the field may equal. -/
theorem code_of_operator_with_quotes :
    Options.standard.unescapeFallback = true
      ∧ code .standard .auto "\x7b\"a\": \x7b\"$x\\\": null, \\\"b\": null\x7d\x7d"
        = .ok "gmqb.Eq(\"a\", bson.D\x7b\x7b\"$x\", nil\x7d, \x7b\"b\", nil\x7d\x7d)"
      ∧ ¬ ∃ v, Reading "\x7b\"a\": \x7b\"$x\\\": null, \\\"b\": null\x7d\x7d" v
        ∧ ofValue .standard v
          = .ok "gmqb.Eq(\"a\", bson.D\x7b\x7b\"$x\", nil\x7d, \x7b\"b\", nil\x7d\x7d)" := by
  refine ⟨rfl, by decide +kernel, ?_⟩
  rintro ⟨v, hr, hc⟩
  have hvalue : value true "\x7b\"a\": \x7b\"$x\\\": null, \\\"b\": null\x7d\x7d"
      = .ok (.document [("a", .document [("$x\": null, \"b", .null)])]) := by rfl
  rw [← value_eq_ok_iff, hvalue] at hr
  cases hr
  exact absurd hc nofun

end QueryScribe.Query
