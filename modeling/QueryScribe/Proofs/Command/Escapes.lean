import QueryScribe.Command.Retry
import QueryScribe.Proofs.Json.Outside
import QueryScribe.Proofs.Query.Dispatch

/-!
# Queries escaped for a shell

A text that can be read and holds a quote cannot be read any more once it is escaped: nothing
before its first quote is a backslash, and then one stands there.  A text without
quotes that can be read has no backslash either, and escaping leaves it as it is.
`readable_escaped` puts the two together.  So an attempt that reads its text fails on the
escaped text or does not see the difference, and the second attempt is made on the text itself,
as `unescape` undoes `escape`: `retrying_escaped`.
-/

namespace QueryScribe

open QueryScribe.Text QueryScribe.Json QueryScribe.Outcome

/-! ### Escaped text -/

namespace Text

/-- Trimming takes away blanks only. -/
theorem mem_trim {c : Char} (h : isBlank c = false) {t : List Char} : c ∈ trim t ↔ c ∈ t := by
  have drop (s : List Char) : c ∈ s.dropWhile isBlank ↔ c ∈ s := by
    constructor
    · intro hc
      exact (List.dropWhile_sublist _).subset hc
    · intro hc
      rw [← List.takeWhile_append_dropWhile (p := isBlank) (l := s), List.mem_append] at hc
      rcases hc with hc | hc
      · have hblank := List.all_eq_true.1 List.all_takeWhile c hc
        rw [h] at hblank
        exact absurd hblank nofun
      · exact hc
  rw [trim, trimEnd, List.mem_reverse, drop, List.mem_reverse, trimStart, drop]

/-- Blanks are left alone where a text is rewritten character by character, and all that is written
for other characters begins with no blank. -/
theorem dropWhile_flatMap {f : Char → List Char} (hblank : ∀ c, isBlank c = true → f c = [c])
    (hother : ∀ c, isBlank c = false → ∃ d r, f c = d :: r ∧ isBlank d = false) (t : List Char) :
    (t.flatMap f).dropWhile isBlank = (t.dropWhile isBlank).flatMap f := by
  induction t with
  | nil => rfl
  | cons c t ih =>
    by_cases hc : isBlank c = true
    · rw [List.flatMap_cons, hblank c hc, List.singleton_append, List.dropWhile_cons_of_pos hc,
        List.dropWhile_cons_of_pos hc, ih]
    · obtain ⟨d, r, hd, hdb⟩ := hother c (by simpa using hc)
      rw [List.dropWhile_cons_of_neg hc, List.flatMap_cons, hd, List.cons_append,
        List.dropWhile_cons_of_neg (by simp [hdb])]

end Text

namespace Shell

theorem escape_append (s t : List Char) : escape (s ++ t) = escape s ++ escape t := by
  rw [escape, List.flatMap_append, escape, escape]

theorem escapeChar_of_ne {c : Char} (hq : c ≠ '"') (hb : c ≠ '\\') : escapeChar c = [c] := by
  rw [escapeChar, if_neg (not_or.2 ⟨hq, hb⟩)]

theorem escape_eq_self {t : List Char} (hq : '"' ∉ t) (hb : '\\' ∉ t) : escape t = t := by
  induction t with
  | nil => rfl
  | cons c r ih =>
    rw [List.mem_cons, not_or] at hq hb
    have hr : escape r = r := ih hq.2 hb.2
    rw [escape] at hr
    rw [escape, List.flatMap_cons, escapeChar_of_ne (Ne.symm hq.1) (Ne.symm hb.1), hr]
    rfl

theorem hasEscapedQuote_cons {t : List Char} (c : Char) (h : hasEscapedQuote t = true) :
    hasEscapedQuote (c :: t) = true := by
  cases t with
  | nil => exact absurd h nofun
  | cons d r => rw [hasEscapedQuote, h, Bool.or_true]

theorem hasEscapedQuote_append (before rest : List Char) :
    hasEscapedQuote (before ++ '\\' :: '"' :: rest) = true := by
  induction before with
  | nil => rfl
  | cons c r ih => exact hasEscapedQuote_cons c ih

/-- Where a text has a quote, the escaped text has it behind a backslash. -/
theorem hasEscapedQuote_escape {t : List Char} (h : '"' ∈ t) : hasEscapedQuote (escape t) = true := by
  obtain ⟨before, rest, rfl⟩ := List.append_of_mem h
  rw [escape_append]
  exact hasEscapedQuote_append (escape before) (escape rest)

/-! ### Blanks around escaped text -/

theorem escapeChar_of_blank {c : Char} (h : isBlank c = true) : escapeChar c = [c] := by
  refine escapeChar_of_ne ?_ ?_
  · rintro rfl
    exact absurd h (by decide)
  · rintro rfl
    exact absurd h (by decide)

/-- The blanks at the ends of a text are those of the escaped text. -/
theorem trim_escape (t : List Char) : trim (escape t) = escape (trim t) := by
  have hback : isBlank '\\' = false := by decide
  have front : trimStart (escape t) = escape (trimStart t) := by
    refine dropWhile_flatMap (fun c => escapeChar_of_blank) ?_ t
    intro c hc
    by_cases he : c = '"' ∨ c = '\\'
    · exact ⟨'\\', [c], if_pos he, hback⟩
    · exact ⟨c, [], if_neg he, hc⟩
  have back (s : List Char) : trimEnd (escape s) = escape (trimEnd s) := by
    have hreverse : (escape s).reverse = s.reverse.flatMap (List.reverse ∘ escapeChar) :=
      List.reverse_flatMap
    rw [trimEnd, hreverse, dropWhile_flatMap, trimEnd, escape, List.reverse_flatMap]
    · simp [Function.comp_def]
    · intro c hc
      rw [Function.comp_apply, escapeChar_of_blank hc, List.reverse_singleton]
    · intro c hc
      by_cases he : c = '"' ∨ c = '\\'
      · exact ⟨c, ['\\'], by rw [Function.comp_apply, escapeChar, if_pos he]; rfl, hc⟩
      · exact ⟨c, [], by rw [Function.comp_apply, escapeChar, if_neg he]; rfl, hc⟩
  rw [trim, front, back, trim]

end Shell

/-! ### Reading escaped text -/

/-- A text that can be read has a quote and cannot be read once it is escaped, or has nothing to
escape. -/
theorem readWith_escape {α : Type} {asm : Assembly α} {text : List Char} {v : α}
    (h : readWith asm text = .ok v) :
    ('"' ∈ text ∧ ∀ w, readWith asm (Shell.escape text) ≠ .ok w)
      ∨ '"' ∉ text ∧ '\\' ∉ text := by
  by_cases hq : '"' ∈ text
  · obtain ⟨before, rest, rfl, hbefore⟩ := List.eq_append_cons_of_mem hq
    refine .inl ⟨hq, ?_⟩
    intro w
    have hback : '\\' ∉ before := by
      intro hmem
      obtain ⟨s, r, rfl⟩ := List.append_of_mem hmem
      rw [List.append_assoc] at h
      exact readWith_backslash (fun hs => hbefore (List.mem_append_left _ hs)) h
    rw [Shell.escape_append, Shell.escape_eq_self hbefore hback]
    exact readWith_backslash hbefore
  · refine .inr ⟨hq, ?_⟩
    intro hmem
    obtain ⟨s, r, rfl⟩ := List.append_of_mem hmem
    exact readWith_backslash (fun hs => hq (List.mem_append_left _ hs)) h

namespace Query

def escaped (text : String) : String := String.ofList (Shell.escape text.toList)

example : escaped "\x7b\"a\": \"\\n\"\x7d" = "\x7b\\\"a\\\": \\\"\\\\n\\\"\x7d" := by decide

theorem readValue_eq_ok_iff {text : String} {v : Value} :
    readValue text = .ok v ↔ readWith Value.assembly text.toList = .ok v := by
  rw [readValue, Value.ofText, Value.read]
  cases readWith Value.assembly text.toList with
  | error failure => simp [Except.mapError]
  | ok w => rw [mapError_ok, Except.ok.injEq, Except.ok.injEq]

/-- **A query that can be read** does not change when it is escaped, or it cannot be read any more
and holds an escaped quote. -/
theorem readable_escaped {t : String} {v : Value} (h : readValue (trimmed t) = .ok v) :
    escaped t = t ∨ Shell.hasEscapedQuote (escaped t).toList = true
      ∧ ∀ w, readValue (trimmed (escaped t)) ≠ .ok w := by
  rw [readValue_eq_ok_iff, trimmed, String.toList_ofList] at h
  rcases readWith_escape h with ⟨hq, hne⟩ | ⟨hq, hb⟩
  · right
    rw [mem_trim (by decide)] at hq
    rw [escaped, String.toList_ofList]
    refine ⟨Shell.hasEscapedQuote_escape hq, ?_⟩
    intro w
    rw [ne_eq, readValue_eq_ok_iff, trimmed, String.toList_ofList, String.toList_ofList,
      Shell.trim_escape]
    exact hne w
  · left
    rw [mem_trim (by decide)] at hq hb
    rw [escaped, Shell.escape_eq_self hq hb, String.ofList_toList]

/-- An attempt that has to read its text gives for the escaped text, if it may be made again, what it
gives for the text. -/
theorem retrying_escaped {α : Type} {attempt : String → Except QueryError α}
    (hread : ∀ t a, attempt t = .ok a → ∃ v, readValue (trimmed t) = .ok v) {t : String} {a : α}
    (h : attempt t = .ok a) : retrying true attempt (escaped t) = .ok a := by
  obtain ⟨v, hv⟩ := hread t a h
  rcases readable_escaped hv with he | ⟨hquote, hne⟩
  · rw [he]
    exact retrying_of_ok true h
  · have hback : String.ofList (Shell.unescape (escaped t).toList) = t := by
      rw [escaped, String.toList_ofList, Shell.unescape_escape, String.ofList_toList]
    rw [retrying]
    cases hfirst : attempt (escaped t) with
    | ok b =>
      obtain ⟨w, hw⟩ := hread (escaped t) b hfirst
      exact absurd hw (hne w)
    | error e =>
      dsimp only
      rw [hquote, Bool.and_true, if_pos rfl, hback, h]

/-! ### The two commands -/

theorem exists_read_of_codeOnce {o : Options} {mode : QueryMode} {t c : String}
    (h : codeOnce o mode t = .ok c) : ∃ v, readValue (trimmed t) = .ok v := by
  have filter (h : ofFilterText o (trimmed t) = .ok c) : ∃ v, readValue (trimmed t) = .ok v := by
    obtain ⟨v, hv, _⟩ := bind_eq_ok.1 h
    exact ⟨v, hv⟩
  have pipeline (h : ofPipelineText o (trimmed t) = .ok c) :
      ∃ v, readValue (trimmed t) = .ok v := by
    obtain ⟨v, hv, _⟩ := bind_eq_ok.1 h
    exact ⟨v, hv⟩
  cases mode with
  | auto =>
    rw [codeOnce, ofText] at h
    split at h
    · exact pipeline h
    · exact filter h
  | filter => exact filter h
  | pipeline => exact pipeline h

/-- **Escaping makes no difference.**  A text that has code in one attempt has the same code when it
is escaped, in every mode, and a text that can be read has the same extended JSON. -/
theorem escaping_transparent (o : Options) (ho : o.unescapeFallback = true) (t : String) :
    (∀ mode c, codeOnce o mode t = .ok c → code o mode (escaped t) = .ok c)
      ∧ ∀ v, readValue (trimmed t) = .ok v → ∀ compact unescape, ∃ json,
        canonical compact unescape t = .ok json
          ∧ canonical compact true (escaped t) = .ok json := by
  constructor
  · intro mode c h
    rw [code, ho]
    exact retrying_escaped (fun _ _ => exists_read_of_codeOnce) h
  · intro v h compact unescape
    have hvalue : value unescape t = .ok v := retrying_of_ok unescape h
    have hescaped : value true (escaped t) = .ok v := retrying_escaped (fun _ w hw => ⟨w, hw⟩) h
    rw [canonical, canonical, hvalue, hescaped]
    exact ⟨_, rfl, rfl⟩

/-- A filter with an escaped quote in a string, read as such, and written once more for a shell. -/
theorem escaping_transparent_quote :
    Options.standard.unescapeFallback = true
      ∧ code .standard .filter (escaped "\x7b\"a\": \"\\\"\"\x7d") = .ok "gmqb.Eq(\"a\", \"\\\"\")"
      ∧ ∃ json, canonical true false "\x7b\"a\": \"\\\"\"\x7d" = .ok json
        ∧ canonical true true (escaped "\x7b\"a\": \"\\\"\"\x7d") = .ok json := by
  obtain ⟨hcode, hjson⟩ := escaping_transparent .standard rfl "\x7b\"a\": \"\\\"\"\x7d"
  have hread : readValue (trimmed "\x7b\"a\": \"\\\"\"\x7d") = .ok (.document [("a", .string "\"")]) := by
    rfl
  exact ⟨rfl, hcode .filter _ (by decide +kernel), hjson _ hread true false⟩

end Query

end QueryScribe
