import QueryScribe.Proofs.Layout.Scan
import QueryScribe.Proofs.Outcome

/-!
# Literals, comments and brackets of a line

`Lexes line brackets` is the grammar of lines: a line is made of brackets, of literals that
end on it, of characters without a meaning, and perhaps of a comment at its end; the
brackets are those outside literals and comments.  Between quotes a backslash takes the
next character along, whatever it is (`Body`); between grave accents nothing is
taken along.  The scan of a line finds just this (`lexes_iff`), so that it fails
exactly where a literal has no end.
-/

namespace QueryScribe.Layout

open QueryScribe.Text QueryScribe.Outcome

/-- What stands between the quotes of a literal. -/
inductive Body (quote : Char) : List Char → Prop
  | nil : Body quote []
  | escaped (c : Char) {t : List Char} : Body quote t → Body quote ('\\' :: c :: t)
  | plain {c : Char} {t : List Char} : c ≠ '\\' → c ≠ quote → Body quote t → Body quote (c :: t)

/-- A line of which every literal ends on it, with its brackets outside literals and comments. -/
inductive Lexes : List Char → List Char → Prop
  | nil : Lexes [] []
  | bracket {c : Char} {t w : List Char} : (isOpener c || isCloser c) = true → Lexes t w →
      Lexes (c :: t) (c :: w)
  | quoted {quote : Char} {b t w : List Char} : quote = '"' ∨ quote = '\'' → Body quote b →
      Lexes t w → Lexes (quote :: (b ++ quote :: t)) w
  | raw {b t w : List Char} : '\x60' ∉ b → Lexes t w → Lexes ('\x60' :: (b ++ '\x60' :: t)) w
  | comment (t : List Char) : Lexes ('/' :: '/' :: t) []
  | other {c : Char} {t w : List Char} : isPlain c = true ∨ c = '/' ∧ t.head? ≠ some '/' →
      Lexes t w → Lexes (c :: t) w

/-! ### Literals -/

theorem scanQuoted_body {quote : Char} (hq : quote ≠ '\\') {b : List Char} (h : Body quote b)
    (t : List Char) : scanQuoted quote (b ++ quote :: t) = scan t := by
  induction h with
  | nil => rw [List.nil_append, scanQuoted, if_neg hq, if_pos rfl]
  | escaped c _ ih =>
    rw [List.cons_append, List.cons_append, scanQuoted, if_pos rfl, scanEscaped, ih]
  | plain hb hc _ ih => rw [List.cons_append, scanQuoted, if_neg hb, if_neg hc, ih]

/-- A literal that the scan gets through ends at its quote. -/
theorem exists_body {quote : Char} {t w : List Char} (h : scanQuoted quote t = .ok w) :
    ∃ b r, t = b ++ quote :: r ∧ Body quote b ∧ scan r = .ok w := by
  induction hk : t.length using Nat.strongRecOn generalizing t with
  | ind k ih =>
    cases t with
    | nil =>
      rw [scanQuoted] at h
      cases h
    | cons c t =>
      rw [scanQuoted] at h
      split at h
      · rename_i hb
        cases t with
        | nil =>
          rw [scanEscaped] at h
          cases h
        | cons d t =>
          rw [scanEscaped] at h
          have hlen : t.length < k := by
            rw [← hk, List.length_cons, List.length_cons]
            omega
          obtain ⟨b, r, rfl, hbody, hr⟩ := ih _ hlen h rfl
          exact ⟨c :: d :: b, r, rfl, hb ▸ .escaped d hbody, hr⟩
      · rename_i hb
        split at h
        · rename_i hc
          exact ⟨[], t, by rw [hc, List.nil_append], .nil, h⟩
        · rename_i hc
          have hlen : t.length < k := by
            rw [← hk, List.length_cons]
            omega
          obtain ⟨b, r, rfl, hbody, hr⟩ := ih _ hlen h rfl
          exact ⟨c :: b, r, rfl, .plain hb hc hbody, hr⟩

theorem scanRaw_append {b : List Char} (h : '\x60' ∉ b) (t : List Char) :
    scanRaw (b ++ '\x60' :: t) = scan t := by
  induction b with
  | nil => rw [List.nil_append, scanRaw, if_pos rfl]
  | cons c b ih =>
    rw [List.mem_cons, not_or] at h
    rw [List.cons_append, scanRaw, if_neg (Ne.symm h.1), ih h.2]

theorem exists_raw {t w : List Char} (h : scanRaw t = .ok w) :
    ∃ b r, t = b ++ '\x60' :: r ∧ '\x60' ∉ b ∧ scan r = .ok w := by
  induction t with
  | nil =>
    rw [scanRaw] at h
    cases h
  | cons c t ih =>
    rw [scanRaw] at h
    split at h
    · rename_i hc
      exact ⟨[], t, by rw [hc, List.nil_append], List.not_mem_nil, h⟩
    · rename_i hc
      obtain ⟨b, r, rfl, hb, hr⟩ := ih h
      refine ⟨c :: b, r, rfl, ?_, hr⟩
      rw [List.mem_cons, not_or]
      exact ⟨Ne.symm hc, hb⟩

/-! ### Lines -/

theorem scan_cons_quote {quote : Char} (hq : quote = '"' ∨ quote = '\'') (t : List Char) :
    scan (quote :: t) = scanQuoted quote t := by
  rcases hq with rfl | rfl
  · rw [scan]
    rfl
  · rw [scan]
    rfl

theorem scan_cons_grave (t : List Char) : scan ('\x60' :: t) = scanRaw t := by
  rw [scan]
  rfl

theorem scan_cons_slash {t : List Char} (h : t.head? ≠ some '/') : scan ('/' :: t) = scan t := by
  rw [scan, if_neg (by decide), if_neg (by decide), if_neg (by decide), if_neg (by simp [h])]

theorem Lexes.scan_eq {t w : List Char} (h : Lexes t w) : scan t = .ok w := by
  induction h with
  | nil => exact scan_nil
  | bracket hc _ ih => rw [scan_cons_of_bracket hc, ih]; rfl
  | @quoted quote b t w hq hb _ ih =>
    have hslash : quote ≠ '\\' := by rcases hq with rfl | rfl <;> decide
    rw [scan_cons_quote hq, scanQuoted_body hslash hb, ih]
  | raw hb _ ih => rw [scan_cons_grave, scanRaw_append hb, ih]
  | comment t => rw [scan]; rfl
  | other hc _ ih =>
    rcases hc with hc | ⟨rfl, hne⟩
    · rw [scan_cons_of_plain hc, ih]
    · rw [scan_cons_slash hne, ih]

/-- The kinds of characters that a line can go on with. -/
theorem char_cases (c : Char) : (isOpener c || isCloser c) = true ∨ (c = '"' ∨ c = '\'')
    ∨ c = '\x60' ∨ c = '/' ∨ isPlain c = true := by
  by_cases hp : isPlain c = true
  · exact .inr (.inr (.inr (.inr hp)))
  · simp only [isPlain, marks, List.contains_eq_mem, Bool.not_eq_true', decide_eq_false_iff_not,
      List.mem_cons, List.not_mem_nil, or_false, not_not] at hp
    rcases hp with rfl | rfl | rfl | rfl | rfl | rfl | rfl | rfl | rfl | rfl
    all_goals decide

theorem lexes_of_scan {t w : List Char} (h : scan t = .ok w) : Lexes t w := by
  induction hk : t.length using Nat.strongRecOn generalizing t w with
  | ind k ih =>
    cases t with
    | nil =>
      rw [scan_nil] at h
      exact Except.ok.inj h ▸ .nil
    | cons c t =>
      have hlen : t.length < k := by rw [← hk]; exact Nat.lt_succ_self _
      rcases char_cases c with hc | hc | rfl | rfl | hc
      · rw [scan_cons_of_bracket hc, map_eq_ok] at h
        obtain ⟨v, hv, rfl⟩ := h
        exact .bracket hc (ih _ hlen hv rfl)
      · rw [scan_cons_quote hc] at h
        obtain ⟨b, r, rfl, hb, hr⟩ := exists_body h
        rw [List.length_append, List.length_cons] at hlen
        exact .quoted hc hb (ih _ (by omega) hr rfl)
      · rw [scan_cons_grave] at h
        obtain ⟨b, r, rfl, hb, hr⟩ := exists_raw h
        rw [List.length_append, List.length_cons] at hlen
        exact .raw hb (ih _ (by omega) hr rfl)
      · by_cases hhead : t.head? = some '/'
        · obtain ⟨r, rfl⟩ := List.head?_eq_some_iff.1 hhead
          have hcomment := (Lexes.comment r).scan_eq
          rw [hcomment] at h
          exact Except.ok.inj h ▸ .comment r
        · rw [scan_cons_slash hhead] at h
          exact .other (.inr ⟨rfl, hhead⟩) (ih _ hlen h rfl)
      · rw [scan_cons_of_plain hc] at h
        exact .other (.inl hc) (ih _ hlen h rfl)

/-- **The scan finds the brackets of a line** exactly if every literal of the line ends on it. -/
theorem lexes_iff {t w : List Char} : Lexes t w ↔ scan t = .ok w := ⟨Lexes.scan_eq, lexes_of_scan⟩

example : Lexes "f(')', x) // (".toList ['(', ')'] := lexes_iff.2 (by decide)

theorem Lexes.isBracket {t w : List Char} (h : Lexes t w) :
    ∀ c ∈ w, (isOpener c || isCloser c) = true := by
  induction h with
  | nil | comment => exact fun c hc => absurd hc List.not_mem_nil
  | bracket hc _ ih => exact List.forall_mem_cons.2 ⟨hc, ih⟩
  | quoted _ _ _ ih | raw _ _ ih | other _ _ ih => exact ih

end QueryScribe.Layout
