import QueryScribe.Proofs.Layout.Nesting

/-!
# Whole texts

`Lexed text brackets` says that a text of several lines is made of line breaks and of
pieces inside one line that the scan passes over; the brackets are those of the pieces
in order.  Each line of such a text can be scanned, since no literal goes beyond the
piece it stands in.  A text is `Whole` when it is lexed and its brackets are well
nested.  Whole texts are closed under laying end to end and under putting brackets
around, and `Whole.format_ok` says that the layout pass accepts them.  A whole text on one
line is `Flat`, and these are closed in the same way.
-/

namespace QueryScribe.Layout

open QueryScribe.Text QueryScribe.Outcome

/-- A text made of line breaks and of pieces of lines, with the brackets of the pieces. -/
inductive Lexed : List Char → List Char → Prop
  | nil : Lexed [] []
  | newline {t w : List Char} : Lexed t w → Lexed ('\n' :: t) w
  | piece {a x t w : List Char} : '\n' ∉ a → Passes a x → Lexed t w → Lexed (a ++ t) (x ++ w)

theorem Lexed.of_passes {a x : List Char} (hn : '\n' ∉ a) (h : Passes a x) : Lexed a x := by
  have := Lexed.piece hn h .nil
  rwa [List.append_nil, List.append_nil] at this

theorem Lexed.append {s t v w : List Char} (hs : Lexed s v) (ht : Lexed t w) :
    Lexed (s ++ t) (v ++ w) := by
  induction hs with
  | nil => exact ht
  | newline _ ih => exact .newline ih
  | piece hn hp _ ih =>
    rw [List.append_assoc, List.append_assoc]
    exact .piece hn hp ih

/-- Over several lines, too, the scan finds just the brackets of the pieces. -/
theorem Lexed.passes {t w : List Char} (h : Lexed t w) : Passes t w := by
  induction h with
  | nil => exact passes_nil
  | newline _ ih =>
    have : Passes ['\n'] [] := passes_of_plain (List.all_eq_true.1 (by decide))
    exact this.append ih
  | piece _ hp _ ih => exact hp.append ih

theorem lines_newline (t : List Char) : lines ('\n' :: t) = [] :: lines t := by
  rw [lines, if_pos rfl]

/-- A piece without a line break goes in front of the first line. -/
theorem lines_append {a t l : List Char} {ls : List (List Char)} (hn : '\n' ∉ a)
    (h : lines t = l :: ls) : lines (a ++ t) = (a ++ l) :: ls := by
  induction a with
  | nil => exact h
  | cons c a ih =>
    rw [List.mem_cons, not_or] at hn
    rw [List.cons_append, lines, if_neg (Ne.symm hn.1), ih hn.2]
    rfl

/-- **Each line can be scanned**, and the brackets of the lines make up those of the text. -/
theorem Lexed.exists_lines {t w : List Char} (h : Lexed t w) :
    ∃ l ls x xs, lines t = l :: ls ∧ Passes l x ∧ ls.mapM scan = .ok xs ∧ x ++ xs.flatten = w := by
  induction h with
  | nil => exact ⟨[], [], [], [], rfl, passes_nil, rfl, rfl⟩
  | newline _ ih =>
    obtain ⟨l, ls, x, xs, hl, hp, hs, rfl⟩ := ih
    refine ⟨[], l :: ls, [], x :: xs, by rw [lines_newline, hl], passes_nil, ?_, by simp⟩
    exact mapM_cons_eq_ok.2 ⟨x, hp.scan_eq, xs, hs, rfl⟩
  | piece hn hp _ ih =>
    obtain ⟨l, ls, x, xs, hl, hp', hs, rfl⟩ := ih
    exact ⟨_, ls, _, xs, lines_append hn hl, hp.append hp', hs, List.append_assoc ..⟩

theorem Lexed.mapM_scan {t w : List Char} (h : Lexed t w) :
    ∃ ws, (lines t).mapM scan = .ok ws ∧ ws.flatten = w := by
  obtain ⟨l, ls, x, xs, hl, hp, hs, rfl⟩ := h.exists_lines
  exact ⟨x :: xs, by rw [hl]; exact mapM_cons_eq_ok.2 ⟨x, hp.scan_eq, xs, hs, rfl⟩, rfl⟩

/-! ### Whole texts -/

/-- A text whose literals end on their lines and whose brackets are well nested. -/
def Whole (text : List Char) : Prop := ∃ brackets, Lexed text brackets ∧ Nested brackets

theorem whole_nil : Whole [] := ⟨[], .nil, .nil⟩

theorem whole_newline : Whole ['\n'] := ⟨[], .newline .nil, .nil⟩

/-- A piece of a line in which the scan finds no bracket. -/
theorem whole_of_passes {t : List Char} (hn : '\n' ∉ t) (h : Passes t []) : Whole t :=
  ⟨[], .of_passes hn h, .nil⟩

theorem Whole.append {s t : List Char} (hs : Whole s) (ht : Whole t) : Whole (s ++ t) := by
  obtain ⟨v, hv, nv⟩ := hs
  obtain ⟨w, hw, nw⟩ := ht
  exact ⟨v ++ w, hv.append hw, nv.append nw⟩

theorem Whole.enclose (b : Bracket) {t : List Char} (h : Whole t) :
    Whole (b.opener :: (t ++ [b.closer])) := by
  obtain ⟨w, hw, nw⟩ := h
  have ho : Lexed [b.opener] [b.opener] := by
    cases b <;> exact .of_passes (by decide) (passes_bracket rfl)
  have hc : Lexed [b.closer] [b.closer] := by
    cases b <;> exact .of_passes (by decide) (passes_bracket rfl)
  exact ⟨_, ho.append (hw.append hc), nw.enclose b⟩

section Closed

variable {P : List Char → Prop} (nil : P []) (append : ∀ {s t}, P s → P t → P (s ++ t))
  {ts : List (List Char)}
include nil append

/-- What holds of two texts end to end when it holds of each, holds of many. -/
theorem flatten_closed (h : ∀ t ∈ ts, P t) : P ts.flatten := by
  induction ts with
  | nil => exact nil
  | cons t r ih =>
    rw [List.flatten_cons]
    exact append (h t List.mem_cons_self) (ih fun u hu => h u (List.mem_cons_of_mem t hu))

/-- What holds of texts laid end to end holds of joined texts. -/
theorem intercalate_closed {sep : List Char} (hsep : P sep) (h : ∀ t ∈ ts, P t) :
    P (sep.intercalate ts) := by
  induction ts with
  | nil => exact nil
  | cons t r ih =>
    cases r with
    | nil => exact List.intercalate_singleton ▸ h t List.mem_cons_self
    | cons u r =>
      rw [List.intercalate_cons_cons]
      have rest := ih fun v hv => h v (List.mem_cons_of_mem t hv)
      exact append (append (h t List.mem_cons_self) hsep) rest

end Closed

theorem whole_flatten {ts : List (List Char)} (h : ∀ t ∈ ts, Whole t) : Whole ts.flatten :=
  flatten_closed whole_nil Whole.append h

theorem whole_intercalate {sep : List Char} {ts : List (List Char)} (hsep : Whole sep)
    (h : ∀ t ∈ ts, Whole t) : Whole (sep.intercalate ts) :=
  intercalate_closed whole_nil Whole.append hsep h

/-- A whole text on one line. -/
structure Flat (text : List Char) : Prop where
  whole : Whole text
  line : '\n' ∉ text

theorem flat_of_passes {t : List Char} (hn : '\n' ∉ t) (h : Passes t []) : Flat t :=
  ⟨whole_of_passes hn h, hn⟩

theorem Flat.append {s t : List Char} (hs : Flat s) (ht : Flat t) : Flat (s ++ t) :=
  ⟨hs.whole.append ht.whole, by rw [List.mem_append]; exact not_or.2 ⟨hs.line, ht.line⟩⟩

theorem Flat.enclose (b : Bracket) {t : List Char} (h : Flat t) :
    Flat (b.opener :: (t ++ [b.closer])) := by
  refine ⟨h.whole.enclose b, ?_⟩
  have hb : '\n' ≠ b.opener ∧ '\n' ≠ b.closer := by cases b <;> decide
  simp [hb, h.line]

theorem flat_flatten {ts : List (List Char)} (h : ∀ t ∈ ts, Flat t) : Flat ts.flatten :=
  flatten_closed ⟨whole_nil, List.not_mem_nil⟩ Flat.append h

theorem flat_intercalate {sep : List Char} {ts : List (List Char)} (hsep : Flat sep)
    (h : ∀ t ∈ ts, Flat t) : Flat (sep.intercalate ts) :=
  intercalate_closed ⟨whole_nil, List.not_mem_nil⟩ Flat.append hsep h

/-- **The layout pass accepts whole texts.** -/
theorem Whole.format_ok {t : List Char} (h : Whole t) : ∃ text, format t = .ok text := by
  obtain ⟨w, hw, nw⟩ := h
  obtain ⟨ws, hs, rfl⟩ := hw.mapM_scan
  exact Layout.format_ok hs nw

end QueryScribe.Layout
