import QueryScribe.Code.Basic
import QueryScribe.Proofs.Layout.Rows

/-!
# Well-nested brackets are laid out

`Layout.format` refuses a text for two reasons only: a literal does not end on its
line, or the brackets are not well nested.  `Nested` is the grammar of well-nested
words of brackets, and `format_ok` says that a text is laid out when each of its lines
can be scanned and the brackets of the lines, one line after another, are a nested
word.

The pass keeps the open brackets with the lines that they stand on, but whether it
goes on depends on the brackets alone.  `nest` is the pass with the line numbers left
out; `bracket_of_nest`, `layLine_of_nest` and `layLines_of_nest` put them back for one
bracket, one line and all lines.
-/

namespace QueryScribe.Layout

open QueryScribe.Text QueryScribe.Outcome

/-! ### Nested words -/

/-- The well-nested words of brackets. -/
inductive Nested : List Char → Prop
  | nil : Nested []
  | wrap (b : Bracket) {w r : List Char} : Nested w → Nested r →
      Nested (b.opener :: (w ++ b.closer :: r))

theorem Nested.append {v w : List Char} (hv : Nested v) (hw : Nested w) : Nested (v ++ w) := by
  induction hv with
  | nil => exact hw
  | wrap b hi _ _ ih =>
    rw [List.cons_append, List.append_assoc, List.cons_append]
    exact .wrap b hi ih

theorem Nested.enclose (b : Bracket) {w : List Char} (h : Nested w) :
    Nested (b.opener :: (w ++ [b.closer])) := .wrap b h .nil

/-- One more bracket after brackets that are still open, the innermost first. -/
def nest (opened : List Char) (c : Char) : Option (List Char) :=
  if isCloser c then
    match opened with
    | [] => none
    | o :: r => if closerFor o = c then some r else none
  else some (c :: opened)

@[simp] theorem nest_opener (b : Bracket) (opened : List Char) :
    nest opened b.opener = some (b.opener :: opened) := by
  cases b <;> rfl

@[simp] theorem nest_closer (b : Bracket) (opened : List Char) :
    nest (b.opener :: opened) b.closer = some opened := by
  cases b <;> rfl

/-- A nested word leaves what was open before it. -/
theorem Nested.foldlM_nest {w : List Char} (h : Nested w) (opened : List Char) :
    w.foldlM nest opened = some opened := by
  induction h generalizing opened with
  | nil => rfl
  | wrap b _ _ ihw ihr =>
    rw [List.foldlM_cons, nest_opener, Option.bind_eq_bind, Option.bind_some, List.foldlM_append,
      ihw, Option.bind_eq_bind, Option.bind_some, List.foldlM_cons, nest_closer,
      Option.bind_eq_bind, Option.bind_some, ihr]

/-! ### The pass and its brackets -/

def openers (stack : List Open) : List Char := stack.map Open.opener

theorem bracket_of_nest {stack : List Open} {c : Char} {opened : List Char} (line : Nat)
    (h : nest (openers stack) c = some opened) :
    ∃ stack', bracket line stack c = .ok stack' ∧ openers stack' = opened := by
  unfold nest at h
  unfold bracket
  split at h
  · rename_i hc
    rw [if_pos hc]
    cases stack with
    | nil => simp [openers] at h
    | cons o r =>
      simp only [openers, List.map_cons, Option.ite_none_right_eq_some, Option.some.injEq] at h
      obtain ⟨hm, rfl⟩ := h
      exact ⟨r, if_pos hm, rfl⟩
  · rename_i hc
    rw [if_neg hc]
    exact ⟨⟨c, line⟩ :: stack, rfl, by rw [openers, List.map_cons]; exact Option.some.inj h⟩

theorem foldlM_bracket_of_nest {w : List Char} {stack : List Open} {opened : List Char} (line : Nat)
    (h : w.foldlM nest (openers stack) = some opened) :
    ∃ stack', w.foldlM (bracket line) stack = .ok stack' ∧ openers stack' = opened := by
  induction w generalizing stack with
  | nil => exact ⟨stack, rfl, Option.some.inj h⟩
  | cons c w ih =>
    rw [List.foldlM_cons, Option.bind_eq_bind, Option.bind_eq_some_iff] at h
    obtain ⟨next, hc, hw⟩ := h
    obtain ⟨mid, hmid, rfl⟩ := bracket_of_nest line hc
    obtain ⟨stack', hs, ho⟩ := ih hw
    refine ⟨stack', ?_, ho⟩
    rw [List.foldlM_cons, hmid]
    exact hs

/-- What a line becomes and leaves behind, from the two parts of its brackets. -/
theorem layLine_eq {line w : List Char} {ctx : Context} {outer stack : List Open} (number : Nat)
    (hs : scan (trim line) = .ok w)
    (ho : ((trim line).takeWhile isCloser).foldlM (bracket number) ctx.stack = .ok outer)
    (hr : (w.drop ((trim line).takeWhile isCloser).length).foldlM (bracket number) outer
      = .ok stack) :
    layLine number ctx line
      = .ok (indent (indentation ctx.chained outer) (trim line),
          ⟨stack, ctx.chained || (stack.isEmpty && (trim line).getLast? = some '.')⟩) := by
  simp only [layLine, hs, mapError_ok, ok_bind, ho, hr]
  rfl

/-- One line: it is laid out when it can be scanned and its brackets fit what is open. -/
theorem layLine_of_nest {line w opened : List Char} {ctx : Context} (number : Nat)
    (hs : scan line = .ok w) (hn : w.foldlM nest (openers ctx.stack) = some opened) :
    ∃ text ctx', layLine number ctx line = .ok (text, ctx') ∧ openers ctx'.stack = opened := by
  rw [← scan_trim] at hs
  obtain ⟨inner, rfl⟩ := takeWhile_prefix_of_scan hs
  rw [List.foldlM_append, Option.bind_eq_bind, Option.bind_eq_some_iff] at hn
  obtain ⟨mid, hlead, hrest⟩ := hn
  obtain ⟨outer, houter, rfl⟩ := foldlM_bracket_of_nest number hlead
  obtain ⟨stack, hstack, ho⟩ := foldlM_bracket_of_nest number hrest
  exact ⟨_, _, layLine_eq number hs houter (by rw [List.drop_left]; exact hstack), ho⟩

theorem layLines_of_nest {ls ws : List (List Char)} {ctx : Context} (number : Nat)
    (hs : ls.mapM scan = .ok ws) (hn : ws.flatten.foldlM nest (openers ctx.stack) = some []) :
    ∃ texts, layLines number ctx ls = .ok texts := by
  induction ls generalizing ws ctx number with
  | nil =>
    obtain rfl := pure_eq_ok.1 hs
    have hempty : ctx.stack = [] := List.map_eq_nil_iff.1 (Option.some.inj hn)
    exact ⟨[], by rw [layLines, hempty]⟩
  | cons line ls ih =>
    obtain ⟨w, hl, vs, hr, rfl⟩ := mapM_cons_eq_ok.1 hs
    rw [List.flatten_cons, List.foldlM_append, Option.bind_eq_bind, Option.bind_eq_some_iff] at hn
    obtain ⟨opened, hline, hrest⟩ := hn
    obtain ⟨text, ctx', hlay, rfl⟩ := layLine_of_nest number hl hline
    obtain ⟨texts, htexts⟩ := ih (number + 1) hr hrest
    exact ⟨text :: texts, by simp only [layLines, hlay, ok_bind, htexts]; rfl⟩

/-- **A text whose lines can be scanned and whose brackets are well nested is laid out.** -/
theorem format_ok {raw : List Char} {ws : List (List Char)} (hs : (lines raw).mapM scan = .ok ws)
    (hn : Nested ws.flatten) : ∃ text, format raw = .ok text := by
  have hall : ws.flatten.foldlM nest (openers Context.start.stack) = some [] := hn.foldlM_nest []
  obtain ⟨texts, h⟩ := layLines_of_nest 1 hs hall
  exact ⟨trim (['\n'].intercalate texts), by rw [format_eq_lines, h]; rfl⟩

end QueryScribe.Layout
