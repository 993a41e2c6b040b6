import QueryScribe.Proofs.Layout.Whole

/-!
# Lines of the layout pass

`Lays` is a run of the layout pass over some lines, from the context that it finds to the
one that it leaves.  Two kinds of lines are all that generated code needs.  A line that
leads (`Leads`) begins with no closer and opens some brackets on top of what is open; a closing
line is made of the closers of just these, and of a comma or a point behind them.
`layLine_of_leads` and `layLine_of_closers` say what becomes of each, and what it leaves.
-/

namespace QueryScribe.Layout

open QueryScribe.Text QueryScribe.Outcome

/-! ### Runs -/

/-- The pass over some lines, from one context to the next. -/
inductive Lays : Nat → Context → List (List Char) → List (List Char) → Context → Prop
  | nil (n : Nat) (ctx : Context) : Lays n ctx [] [] ctx
  | cons {n : Nat} {ctx mid last : Context} {line text : List Char}
      {ls texts : List (List Char)} : layLine n ctx line = .ok (text, mid) →
      Lays (n + 1) mid ls texts last → Lays n ctx (line :: ls) (text :: texts) last

theorem Lays.single {n : Nat} {ctx last : Context} {line text : List Char}
    (h : layLine n ctx line = .ok (text, last)) : Lays n ctx [line] [text] last :=
  .cons h (.nil _ _)

theorem Lays.append {n : Nat} {ctx mid last : Context} {ls ms texts more : List (List Char)}
    (h : Lays n ctx ls texts mid) (k : Lays (n + ls.length) mid ms more last) :
    Lays n ctx (ls ++ ms) (texts ++ more) last := by
  induction h with
  | nil => exact k
  | @cons n ctx mid' last line text ls texts hl _ ih =>
    refine .cons hl (ih ?_)
    rw [Nat.add_right_comm, Nat.add_assoc]
    exact k

/-- A run that leaves no bracket open is all that the pass does. -/
theorem Lays.layLines_eq {n : Nat} {ctx : Context} {ls texts : List (List Char)} {chained : Bool}
    (h : Lays n ctx ls texts ⟨[], chained⟩) : layLines n ctx ls = .ok texts := by
  generalize hlast : (⟨[], chained⟩ : Context) = last at h
  induction h with
  | nil n ctx =>
    subst hlast
    rfl
  | cons hl _ ih =>
    rw [layLines, hl, ok_bind]
    dsimp only
    rw [ih hlast]
    rfl

theorem Lays.ne_nil {n : Nat} {ctx last : Context} {ls texts : List (List Char)}
    (h : Lays n ctx ls texts last) (hne : ls ≠ []) : texts ≠ [] := by
  cases h with
  | nil => exact absurd rfl hne
  | cons => exact List.cons_ne_nil _ _

theorem lines_join (s t : List Char) : lines (s ++ '\n' :: t) = lines s ++ lines t := by
  induction s with
  | nil => rw [List.nil_append, lines_newline, lines, List.singleton_append]
  | cons c s ih =>
    rw [List.cons_append, lines, ih, lines]
    split
    · rw [List.cons_append]
    · cases h : lines s with
      | nil => exact absurd h (lines_ne_nil s)
      | cons l ls => rfl

theorem lines_of_line {a : List Char} (h : '\n' ∉ a) : lines a = [a] := by
  have := lines_append (t := []) h rfl
  rwa [List.append_nil] at this

/-! ### Brackets of a line -/

/-- A piece of a line that opens some brackets, the innermost first, and leaves nothing else. -/
def Opens (a opened : List Char) : Prop :=
  ∃ w, Passes a w ∧ ∀ (n : Nat) (stack : List Open),
    w.foldlM (bracket n) stack = .ok (opened.map (Open.mk · n) ++ stack)

def closers (opened : List Char) : List Char := opened.map closerFor

theorem foldlM_append {n : Nat} {v w : List Char} {s t : List Open}
    (h : v.foldlM (bracket n) s = .ok t) :
    (v ++ w).foldlM (bracket n) s = w.foldlM (bracket n) t := by
  rw [List.foldlM_append, h, ok_bind]

theorem Opens.append {a b s t : List Char} (ha : Opens a s) (hb : Opens b t) :
    Opens (a ++ b) (t ++ s) := by
  obtain ⟨v, hv, fv⟩ := ha
  obtain ⟨w, hw, fw⟩ := hb
  refine ⟨v ++ w, hv.append hw, fun n stack => ?_⟩
  rw [foldlM_append (fv n stack), fw, List.map_append, List.append_assoc]

theorem opens_opener (b : Bracket) : Opens [b.opener] [b.opener] := by
  refine ⟨[b.opener], by cases b <;> exact passes_bracket rfl, fun n stack => ?_⟩
  cases b <;> rfl

/-- A nested word leaves the open brackets as they are. -/
theorem Nested.foldlM_bracket {w : List Char} (h : Nested w) (n : Nat) (stack : List Open) :
    w.foldlM (bracket n) stack = .ok stack := by
  induction h generalizing stack with
  | nil => rfl
  | wrap b _ _ ihw ihr =>
    have hopen : bracket n stack b.opener = .ok (⟨b.opener, n⟩ :: stack) := by cases b <;> rfl
    have hclose : bracket n (⟨b.opener, n⟩ :: stack) b.closer = .ok stack := by cases b <;> rfl
    rw [List.foldlM_cons, hopen, ok_bind, foldlM_append (ihw _), List.foldlM_cons, hclose, ok_bind,
      ihr]

/-- A whole text opens nothing that it does not close. -/
theorem opens_of_whole {t : List Char} (h : Whole t) : Opens t [] := by
  obtain ⟨w, hl, hw⟩ := h
  exact ⟨w, hl.passes, hw.foldlM_bracket⟩

theorem isCloser_closerFor (c : Char) : isCloser (closerFor c) = true := by
  unfold closerFor
  split
  · rfl
  · split <;> rfl

theorem isCloser_of_mem {opened : List Char} {c : Char} (h : c ∈ closers opened) :
    isCloser c = true := by
  obtain ⟨o, _, rfl⟩ := List.mem_map.1 h
  exact isCloser_closerFor o

theorem isBlank_of_isCloser {c : Char} (h : isCloser c = true) : isBlank c = false :=
  isBlank_of_class (by decide) h

theorem passes_closers (opened : List Char) : Passes (closers opened) (closers opened) := by
  induction opened with
  | nil => exact passes_nil
  | cons o r ih =>
    have first : Passes [closerFor o] [closerFor o] :=
      passes_bracket (by rw [isCloser_closerFor, Bool.or_true])
    exact first.append ih

/-- The closers of the innermost brackets leave the others. -/
theorem foldlM_closers (opened : List Char) (m n : Nat) (stack : List Open) :
    (closers opened).foldlM (bracket n) (opened.map (Open.mk · m) ++ stack) = .ok stack := by
  induction opened with
  | nil => rfl
  | cons o r ih =>
    have hclose : bracket n (⟨o, m⟩ :: (r.map (Open.mk · m) ++ stack)) (closerFor o)
        = .ok (r.map (Open.mk · m) ++ stack) := by
      rw [bracket, if_pos (isCloser_closerFor o)]
      exact if_pos rfl
    rw [closers, List.map_cons, List.map_cons, List.cons_append, List.foldlM_cons, hclose, ok_bind]
    exact ih

theorem Opens.close {a opened : List Char} (h : Opens a opened) :
    Opens (a ++ closers opened) [] := by
  obtain ⟨w, hw, hf⟩ := h
  refine ⟨_, hw.append (passes_closers opened), fun n stack => ?_⟩
  rw [foldlM_append (hf n stack), foldlM_closers]
  rfl

/-! ### The ends of a line -/

/-- A text that begins with neither a blank nor a closer. -/
def Begins (a : List Char) : Prop :=
  ∃ c r, a = c :: r ∧ isBlank c = false ∧ isCloser c = false

/-- A text that does not end in a blank. -/
def Ends (a : List Char) : Prop := ∃ r c, a = r ++ [c] ∧ isBlank c = false

theorem Begins.append {a : List Char} (h : Begins a) (b : List Char) : Begins (a ++ b) := by
  obtain ⟨c, r, rfl, hc⟩ := h
  exact ⟨c, r ++ b, rfl, hc⟩

theorem Ends.prepend {b : List Char} (a : List Char) (h : Ends b) : Ends (a ++ b) := by
  obtain ⟨r, c, rfl, hc⟩ := h
  exact ⟨a ++ r, c, (List.append_assoc ..).symm, hc⟩

theorem Ends.ne_nil {a : List Char} (h : Ends a) : a ≠ [] := by
  obtain ⟨r, c, rfl, _⟩ := h
  exact List.append_ne_nil_of_right_ne_nil r (List.cons_ne_nil c [])

theorem ends_single {c : Char} (h : isBlank c = false) : Ends [c] := ⟨[], c, rfl, h⟩

theorem trim_of_ends {a : List Char} (head : ∃ c r, a = c :: r ∧ isBlank c = false)
    (last : Ends a) : trim a = a := by
  obtain ⟨c, r, rfl, hc⟩ := head
  obtain ⟨s, d, hd, hlast⟩ := last
  rw [trim, trimStart_cons_of_not_blank r hc, hd, trimEnd_concat_of_not_blank s hlast]

theorem trim_of_begins {a : List Char} (hb : Begins a) (he : Ends a) : trim a = a := by
  obtain ⟨c, r, hr, hc, _⟩ := hb
  exact trim_of_ends ⟨c, r, hr, hc⟩ he

theorem ends_closers {opened : List Char} (hne : opened ≠ []) : Ends (closers opened) := by
  obtain ⟨s, d, hd⟩ := List.eq_nil_or_concat (closers opened) |>.resolve_left
    (by simpa [closers] using hne)
  rw [List.concat_eq_append] at hd
  exact ⟨s, d, hd, isBlank_of_isCloser (isCloser_of_mem (by rw [hd]; simp))⟩

theorem newline_notMem_closers (opened : List Char) : '\n' ∉ closers opened := fun h =>
  absurd (isCloser_of_mem h) (by decide)

theorem closers_append (s t : List Char) : closers (s ++ t) = closers s ++ closers t :=
  List.map_append

/-! ### Leading lines and closing lines -/

/-- The beginning of a line, with the brackets that it opens, the innermost first. -/
structure Leads (a opened : List Char) : Prop where
  line : '\n' ∉ a
  begins : Begins a
  opens : Opens a opened

theorem Leads.append {a b s t : List Char} (ha : Leads a s) (hn : '\n' ∉ b) (hb : Opens b t) :
    Leads (a ++ b) (t ++ s) :=
  ⟨by rw [List.mem_append]; exact not_or.2 ⟨ha.line, hn⟩, ha.begins.append b, ha.opens.append hb⟩

theorem Leads.flat {a b s : List Char} (ha : Leads a s) (hb : Flat b) : Leads (a ++ b) s :=
  ha.append hb.line (opens_of_whole hb.whole)

theorem Leads.close {a opened : List Char} (h : Leads a opened) : Leads (a ++ closers opened) [] :=
  ⟨by rw [List.mem_append]; exact not_or.2 ⟨h.line, newline_notMem_closers opened⟩,
    h.begins.append _, h.opens.close⟩

def tabs (n : Nat) : List Char := List.replicate n '\t'

theorem indent_cons (n : Nat) (c : Char) (r : List Char) :
    indent n (c :: r) = tabs n ++ c :: r := rfl

/-- What a context leaves behind after a line that opens some brackets. -/
theorem layLine_of_leads {a opened : List Char} (ha : Leads a opened) (he : Ends a) (n : Nat)
    (stack : List Open) (chained : Bool) :
    layLine n ⟨stack, chained⟩ a = .ok (tabs (indentation chained stack) ++ a,
      ⟨opened.map (Open.mk · n) ++ stack, chained
        || ((opened.map (Open.mk · n) ++ stack).isEmpty && a.getLast? = some '.')⟩) := by
  obtain ⟨w, hw, hf⟩ := ha.opens
  have htrim := trim_of_begins ha.begins he
  obtain ⟨c, r, hr, _, hcloser⟩ := ha.begins
  have hlead : (trim a).takeWhile isCloser = [] := by
    rw [htrim, hr, List.takeWhile_cons_of_neg (by simp [hcloser])]
  have hscan : scan (trim a) = .ok w := by rw [scan_trim, hw.scan_eq]
  have h : layLine n ⟨stack, chained⟩ a = _ := layLine_eq n hscan (by rw [hlead]; rfl)
    (by rw [hlead]; exact hf n stack)
  rw [h, htrim, hr, indent_cons]

/-- What may stand behind a text on its last line: nothing, a comma or a point. -/
def Ending (e : List Char) : Prop := e = [] ∨ e = [','] ∨ e = ['.']

theorem Ending.passes {e : List Char} (h : Ending e) : Passes e [] := by
  rcases h with rfl | rfl | rfl
  · exact passes_nil
  · exact passes_of_plain (List.all_eq_true.1 (by decide))
  · exact passes_of_plain (List.all_eq_true.1 (by decide))

theorem Ending.newline_notMem {e : List Char} (h : Ending e) : '\n' ∉ e := by
  rcases h with rfl | rfl | rfl <;> decide

theorem Ending.takeWhile_isCloser {e : List Char} (h : Ending e) : e.takeWhile isCloser = [] := by
  rcases h with rfl | rfl | rfl <;> rfl

theorem Ends.ending {a e : List Char} (ha : Ends a) (he : Ending e) : Ends (a ++ e) := by
  rcases he with rfl | rfl | rfl
  · rwa [List.append_nil]
  · exact (ends_single (by decide)).prepend _
  · exact (ends_single (by decide)).prepend _

/-- Closers begin a line with something that is not blank. -/
theorem head_closing {opened : List Char} (hne : opened ≠ []) (e : List Char) :
    ∃ c r, closers opened ++ e = c :: r ∧ isBlank c = false := by
  obtain ⟨c, r, hc⟩ : ∃ c r, closers opened = c :: r :=
    List.exists_cons_of_ne_nil (by simpa [closers] using hne)
  exact ⟨c, r ++ e, by rw [hc, List.cons_append],
    isBlank_of_isCloser (isCloser_of_mem (by rw [hc]; exact List.mem_cons_self))⟩

theorem takeWhile_closing {opened e : List Char} (he : Ending e) :
    (closers opened ++ e).takeWhile isCloser = closers opened := by
  rw [List.takeWhile_append_of_pos fun d hd => isCloser_of_mem hd, he.takeWhile_isCloser,
    List.append_nil]

theorem scan_closing {opened e : List Char} (he : Ending e) :
    scan (closers opened ++ e) = .ok (closers opened) := by
  rw [((passes_closers opened).append he.passes).scan_eq, List.append_nil]

/-- A line that closes the innermost brackets gets the tabs of what stays open. -/
theorem layLine_of_closers {opened e : List Char} (hne : opened ≠ []) (he : Ending e) (m n : Nat)
    (stack : List Open) (chained : Bool) :
    layLine n ⟨opened.map (Open.mk · m) ++ stack, chained⟩ (closers opened ++ e)
      = .ok (tabs (indentation chained stack) ++ (closers opened ++ e),
          ⟨stack, chained || (stack.isEmpty && (closers opened ++ e).getLast? = some '.')⟩) := by
  have hhead := head_closing hne e
  have htrim : trim (closers opened ++ e) = closers opened ++ e :=
    trim_of_ends hhead ((ends_closers hne).ending he)
  have hlead : (trim (closers opened ++ e)).takeWhile isCloser = closers opened := by
    rw [htrim, takeWhile_closing he]
  have hscan : scan (trim (closers opened ++ e)) = .ok (closers opened) := by
    rw [scan_trim, scan_closing he]
  have h : layLine n ⟨opened.map (Open.mk · m) ++ stack, chained⟩ (closers opened ++ e) = _ :=
    layLine_eq n hscan (by rw [hlead]; exact foldlM_closers opened m n stack)
      (by rw [hlead, List.drop_length]; rfl)
  obtain ⟨c, r, hc, _⟩ := hhead
  rw [h, htrim, hc, indent_cons]

end QueryScribe.Layout
