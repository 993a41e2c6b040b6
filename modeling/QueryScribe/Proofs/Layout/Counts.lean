import Mathlib.Data.List.SplitBy
import Mathlib.Data.List.TakeWhile
import QueryScribe.Proofs.Layout.Scan
import QueryScribe.Proofs.Outcome

/-!
# The counts of the layout pass

The pass counts, for each line that has brackets open, how many.  The counts can be read
off the open brackets: they are the lengths of the runs of brackets that stand on one line
(`runs`), since brackets are opened line after line and closed from the innermost on.  So a
closer that takes off a bracket takes one off the first run (`release_runs`), and no count
goes below zero.

`layLine` and `layLines` are the pass without its counts: a line has a tab for each run
(`depth`).  `passLine_tally` and `format_eq_layLines` say that the pass with its counts does the
same, error by error.  Both meet the brackets of a line in the same order; what
carries the comparison through a line is that the brackets of the line itself are the
innermost ones (`Current`).
-/

namespace QueryScribe.Layout

open QueryScribe.Text QueryScribe.Outcome

/-! ### The pass without its counts -/

/-- The number of lines on which the open brackets were opened. -/
def depth : List Open → Nat
  | [] => 0
  | [_] => 1
  | a :: b :: r => if a.line = b.line then depth (b :: r) else depth (b :: r) + 1

/-- The open brackets, the innermost first, after one more bracket. -/
def bracket (line : Nat) (stack : List Open) (c : Char) : Except Fault (List Open) :=
  if isCloser c then
    match stack with
    | [] => .error (.unexpected line c)
    | o :: r => if closerFor o.opener = c then .ok r else .error (.mismatch line c o.opener o.line)
  else .ok (⟨c, line⟩ :: stack)

/-- What earlier lines leave behind: open brackets, and whether a chain of calls goes on. -/
structure Context where
  stack : List Open
  chained : Bool
  deriving DecidableEq, Repr

namespace Context

def start : Context := ⟨[], false⟩

end Context

/-- The tabs in front of a line, given what is open after its leading closers. -/
def indentation (chained : Bool) (stack : List Open) : Nat :=
  (if chained then 1 else 0) + depth stack

/-- One line, given its number: the line with its tabs, and what it leaves behind. -/
def layLine (number : Nat) (ctx : Context) (line : List Char) :
    Except Fault (List Char × Context) := do
  let text := trim line
  let brackets ← (scan text).mapError (Fault.openLiteral number)
  let leading := text.takeWhile isCloser
  let outer ← leading.foldlM (bracket number) ctx.stack
  let stack ← (brackets.drop leading.length).foldlM (bracket number) outer
  let chained := ctx.chained || (stack.isEmpty && text.getLast? = some '.')
  return (indent (indentation ctx.chained outer) text, ⟨stack, chained⟩)

def layLines (number : Nat) (ctx : Context) : List (List Char) → Except Fault (List (List Char))
  | [] =>
    match ctx.stack with
    | [] => .ok []
    | o :: _ => .error (.unclosed o.opener o.line)
  | line :: r => do
    let (text, ctx) ← layLine number ctx line
    let texts ← layLines (number + 1) ctx r
    return text :: texts

/-- The lines of a text, with an empty one behind a line break at its end. -/
def lines : List Char → List (List Char)
  | [] => [[]]
  | c :: r =>
    if c = '\n' then [] :: lines r
    else match lines r with
      | [] => [[c]]
      | l :: ls => (c :: l) :: ls

/-! ### Run lengths -/

/-- The lengths of the runs of open brackets that stand on one line. -/
def runs (stack : List Open) : List Nat :=
  ((stack.map Open.line).splitBy (· == ·)).map List.length

section Block

variable {block s : List Open} {n : Nat} (hne : block ≠ []) (hb : ∀ o ∈ block, o.line = n)
  (hs : ∀ o ∈ s.head?, o.line ≠ n)
include hne hb hs

/-- Brackets of one line in front of those of another are a run. -/
theorem runs_block : runs (block ++ s) = block.length :: runs s := by
  have hlines : block.map Open.line = List.replicate block.length n :=
    List.map_eq_replicate_iff.2 hb
  have hrun : (block.map Open.line).splitBy (· == ·) = [block.map Open.line] := by
    refine List.splitBy_of_isChain (by simpa using hne) ?_
    rw [hlines]
    exact List.isChain_replicate_of_rel _ (beq_self_eq_true n)
  have hlast : ∀ x ∈ (block.map Open.line).getLast?, ∀ y ∈ (s.map Open.line).head?,
      (x == y) = false := by
    intro x hx y hy
    rw [hlines] at hx
    have hxn : x = n := List.eq_of_mem_replicate (List.mem_of_mem_getLast? hx)
    obtain ⟨o, ho, rfl⟩ : ∃ o ∈ s.head?, o.line = y := by simpa using hy
    rw [hxn, beq_eq_false_iff_ne]
    exact (hs o ho).symm
  rw [runs, List.map_append, List.splitBy_append hlast, hrun, List.map_append, List.map_singleton,
    List.length_map]
  rfl

theorem depth_block : depth (block ++ s) = depth s + 1 := by
  induction block with
  | nil => exact absurd rfl hne
  | cons a r ih =>
    have ha : a.line = n := hb a List.mem_cons_self
    cases r with
    | nil =>
      cases s with
      | nil => rfl
      | cons o s =>
        have hline : a.line ≠ o.line := fun e => hs o rfl (e ▸ ha)
        rw [List.singleton_append, depth, if_neg hline]
    | cons b r =>
      have hrest := ih (List.cons_ne_nil b r) fun o ho => hb o (List.mem_cons_of_mem a ho)
      have hline : a.line = b.line := ha.trans (hb b (by simp)).symm
      rw [List.cons_append] at hrest
      rw [List.cons_append, List.cons_append, depth, if_pos hline, hrest]

end Block

/-- The brackets that stand on the line of the innermost one. -/
theorem exists_block (o : Open) (r : List Open) :
    ∃ block s, r = block ++ s ∧ (∀ b ∈ o :: block, b.line = o.line)
      ∧ ∀ b ∈ s.head?, b.line ≠ o.line := by
  refine ⟨r.takeWhile (·.line == o.line), r.dropWhile (·.line == o.line),
    List.takeWhile_append_dropWhile.symm, List.forall_mem_cons.2 ⟨rfl, fun b hb => ?_⟩,
    fun b hb => ?_⟩
  · have := List.mem_takeWhile_imp hb
    simpa using this
  · have := List.head?_dropWhile_not (·.line == o.line) r
    rw [Option.mem_def.1 hb] at this
    simpa using this

/-- **Closing a bracket takes one off the first run**, which is never used up before. -/
theorem release_runs (n : Nat) (o : Open) (r : List Open) :
    release n (runs (o :: r)) = .ok (runs r) := by
  obtain ⟨block, s, rfl, hb, hs⟩ := exists_block o r
  have hfirst := runs_block (List.cons_ne_nil o block) hb hs
  rw [List.cons_append, List.length_cons] at hfirst
  rw [hfirst, release]
  cases block with
  | nil => rw [List.length_nil, if_pos rfl, List.nil_append]
  | cons b block =>
    have hrest := runs_block (List.cons_ne_nil b block)
      (fun a ha => hb a (List.mem_cons_of_mem o ha)) hs
    rw [hrest, List.length_cons, if_neg (Nat.succ_ne_zero _)]

/-- There is a run for each line that has a bracket open. -/
theorem length_runs (stack : List Open) : (runs stack).length = depth stack := by
  induction hk : stack.length using Nat.strong_induction_on generalizing stack with
  | _ k ih =>
    cases stack with
    | nil => rfl
    | cons o r =>
      obtain ⟨block, s, rfl, hb, hs⟩ := exists_block o r
      have hrest : s.length < k := by
        rw [← hk, List.length_cons, List.length_append]
        omega
      rw [← List.cons_append, runs_block (List.cons_ne_nil o block) hb hs,
        depth_block (List.cons_ne_nil o block) hb hs, List.length_cons, ih _ hrest s rfl]

/-! ### Brackets of earlier lines -/

/-- Brackets that were opened on earlier lines. -/
def Older (n : Nat) (stack : List Open) : Prop := ∀ o ∈ stack, o.line < n

theorem Older.mono {m n : Nat} {stack : List Open} (h : Older m stack) (hmn : m ≤ n) :
    Older n stack := fun o ho => Nat.lt_of_lt_of_le (h o ho) hmn

theorem older_nil (n : Nat) : Older n [] := fun _ ho => absurd ho List.not_mem_nil

theorem Older.head_ne {n : Nat} {stack : List Open} (h : Older n stack) :
    ∀ o ∈ stack.head?, o.line ≠ n := fun o ho => Nat.ne_of_lt (h o (List.mem_of_mem_head? ho))

theorem Older.opened {n : Nat} {stack : List Open} (h : Older n stack) (opened : List Char) :
    Older (n + 1) (opened.map (Open.mk · n) ++ stack) := by
  intro o ho
  rcases List.mem_append.1 ho with ho | ho
  · obtain ⟨c, _, rfl⟩ := List.mem_map.1 ho
    exact Nat.lt_succ_self n
  · exact Nat.lt_succ_of_lt (h o ho)

theorem bracket_eq_close {c : Char} (hc : isCloser c = true) (n : Nat) (stack : List Open) :
    bracket n stack c = close n c stack := by
  unfold bracket
  rw [if_pos hc]
  cases stack <;> rfl

theorem close_eq_ok {n : Nat} {c : Char} {stack stack' : List Open} :
    close n c stack = .ok stack' ↔ ∃ o, stack = o :: stack' ∧ closerFor o.opener = c := by
  cases stack with
  | nil => exact iff_of_false nofun nofun
  | cons o r =>
    rw [close]
    split
    · rename_i hc
      refine ⟨fun h => ⟨o, congrArg _ (Except.ok.inj h), hc⟩, ?_⟩
      rintro ⟨_, he, _⟩
      rw [(List.cons.inj he).2]
    · rename_i hc
      refine iff_of_false nofun ?_
      rintro ⟨_, he, hc'⟩
      exact hc ((List.cons.inj he).1 ▸ hc')

/-- A bracket is opened on its line or closes the innermost one. -/
theorem bracket_eq_ok {n : Nat} {c : Char} {stack stack' : List Open} :
    bracket n stack c = .ok stack' ↔ (isCloser c = false ∧ stack' = ⟨c, n⟩ :: stack)
      ∨ isCloser c = true ∧ ∃ o, stack = o :: stack' ∧ closerFor o.opener = c := by
  cases hc : isCloser c with
  | false =>
    unfold bracket
    simp [hc, eq_comm]
  | true =>
    rw [bracket_eq_close hc, close_eq_ok]
    simp

/-- A line leaves brackets of earlier lines and its own. -/
theorem Older.foldlM {n : Nat} {stack stack' : List Open} (h : Older (n + 1) stack)
    {w : List Char} (hw : w.foldlM (bracket n) stack = .ok stack') : Older (n + 1) stack' := by
  refine foldlM_preserves (fun c _ s s' hs hc => ?_) h hw
  rcases bracket_eq_ok.1 hc with ⟨_, rfl⟩ | ⟨_, o, rfl, _⟩
  · exact List.forall_mem_cons.2 ⟨Nat.lt_succ_self n, hs⟩
  · exact fun a ha => hs a (List.mem_cons_of_mem o ha)

/-! ### The counts within a line -/

/-- Brackets of a line in front of those of earlier lines. -/
def Current (n : Nat) (stack : List Open) : Prop :=
  ∃ own older, stack = own ++ older ∧ (∀ o ∈ own, o.line = n) ∧ Older n older

theorem Older.current {n : Nat} {stack : List Open} (h : Older n stack) : Current n stack :=
  ⟨[], stack, rfl, fun _ ho => absurd ho List.not_mem_nil, h⟩

theorem Current.bracket {n : Nat} {stack stack' : List Open} (h : Current n stack) {c : Char}
    (hc : bracket n stack c = .ok stack') : Current n stack' := by
  obtain ⟨own, older, rfl, hown, hold⟩ := h
  rcases bracket_eq_ok.1 hc with ⟨_, rfl⟩ | ⟨_, o, he, _⟩
  · exact ⟨⟨c, n⟩ :: own, older, rfl, List.forall_mem_cons.2 ⟨rfl, hown⟩, hold⟩
  · cases own with
    | nil =>
      subst he
      exact Older.current fun a ha => hold a (List.mem_cons_of_mem o ha)
    | cons a own =>
      obtain ⟨rfl, rfl⟩ := List.cons.inj he
      exact ⟨own, older, rfl, fun b hb => hown b (List.mem_cons_of_mem _ hb), hold⟩

/-- What has been read of a line, its counts taken from the open brackets. -/
def progress (n : Nat) (stack : List Open) : Progress where
  stack := stack
  groups := runs (stack.dropWhile (·.line == n))
  own := (stack.takeWhile (·.line == n)).length

theorem progress_append {n : Nat} {own older : List Open} (hown : ∀ o ∈ own, o.line = n)
    (hold : Older n older) :
    progress n (own ++ older) = ⟨own ++ older, runs older, own.length⟩ := by
  have hpos : ∀ o ∈ own, (o.line == n) = true := fun o ho => beq_iff_eq.2 (hown o ho)
  have hneg : older.takeWhile (·.line == n) = [] ∧ older.dropWhile (·.line == n) = older := by
    cases older with
    | nil => exact ⟨rfl, rfl⟩
    | cons o r =>
      have ho : ¬ (o.line == n) = true := fun e => hold.head_ne o rfl (beq_iff_eq.1 e)
      exact ⟨List.takeWhile_cons_of_neg ho, List.dropWhile_cons_of_neg ho⟩
  rw [progress, List.takeWhile_append_of_pos hpos, List.dropWhile_append_of_pos hpos, hneg.1,
    hneg.2, List.append_nil]

theorem Older.progress_eq {n : Nat} {stack : List Open} (h : Older n stack) :
    progress n stack = ⟨stack, runs stack, 0⟩ :=
  progress_append (fun _ ho => absurd ho List.not_mem_nil) h

/-- **One bracket of a line**: the counts stay those of the open brackets. -/
theorem readBracket_progress {n : Nat} {stack : List Open} (h : Current n stack) (c : Char) :
    readBracket n (progress n stack) c = (bracket n stack c).map (progress n) := by
  obtain ⟨own, older, rfl, hown, hold⟩ := h
  rw [progress_append hown hold, readBracket]
  cases hc : isCloser c with
  | false =>
    have hlines : ∀ o ∈ ⟨c, n⟩ :: own, o.line = n := List.forall_mem_cons.2 ⟨rfl, hown⟩
    have hopen := progress_append hlines hold
    rw [List.cons_append, List.length_cons] at hopen
    have hpush : bracket n (own ++ older) c = .ok (⟨c, n⟩ :: (own ++ older)) :=
      bracket_eq_ok.2 (.inl ⟨hc, rfl⟩)
    rw [hpush, if_neg (by simp), Except.map, hopen]
  | true =>
    rw [if_pos rfl, bracket_eq_close hc]
    dsimp only
    cases hclose : close n c (own ++ older) with
    | error e => rfl
    | ok stack' =>
      obtain ⟨o, he, _⟩ := close_eq_ok.1 hclose
      rw [ok_bind, Except.map]
      cases own with
      | nil =>
        -- the bracket stands on an earlier line, and a count goes down
        rw [List.nil_append] at he
        subst he
        have hrest : Older n stack' := fun a ha => hold a (List.mem_cons_of_mem o ha)
        rw [List.length_nil, if_neg (Nat.lt_irrefl 0), release_runs, ok_bind, hrest.progress_eq]
        rfl
      | cons a own =>
        rw [List.cons_append] at he
        obtain ⟨rfl, rfl⟩ := List.cons.inj he
        have hrest := progress_append (fun b hb => hown b (List.mem_cons_of_mem _ hb)) hold
        rw [List.length_cons, if_pos (Nat.succ_pos _), Nat.add_sub_cancel, hrest]
        rfl

theorem foldlM_readBracket {n : Nat} {stack : List Open} (h : Current n stack) (w : List Char) :
    w.foldlM (readBracket n) (progress n stack)
      = (w.foldlM (bracket n) stack).map (progress n) := by
  induction w generalizing stack with
  | nil => rfl
  | cons c w ih =>
    rw [List.foldlM_cons, List.foldlM_cons, readBracket_progress h]
    cases hc : bracket n stack c with
    | error e => rfl
    | ok mid => exact ih (h.bracket hc)

/-- The closers in front of a line are counted like any others. -/
theorem foldlM_closeLeading {n : Nat} {stack : List Open} (h : Older n stack) {w : List Char}
    (hw : ∀ c ∈ w, isCloser c = true) :
    w.foldlM (closeLeading n) (progress n stack)
      = (w.foldlM (bracket n) stack).map (progress n) := by
  induction w generalizing stack with
  | nil => rfl
  | cons c w ih =>
    have hc := hw c List.mem_cons_self
    have hread : closeLeading n (progress n stack) c = readBracket n (progress n stack) c := by
      rw [h.progress_eq, readBracket, if_pos hc]
      rfl
    rw [List.foldlM_cons, List.foldlM_cons, hread, readBracket_progress h.current,
      bracket_eq_close hc]
    cases hclose : close n c stack with
    | error e => rfl
    | ok mid =>
      obtain ⟨o, rfl, _⟩ := close_eq_ok.1 hclose
      exact ih (fun a ha => h a (List.mem_cons_of_mem o ha)) fun d hd =>
        hw d (List.mem_cons_of_mem c hd)

theorem Older.closers {n : Nat} {stack stack' : List Open} (h : Older n stack) {w : List Char}
    (hc : ∀ c ∈ w, isCloser c = true) (hw : w.foldlM (bracket n) stack = .ok stack') :
    Older n stack' := by
  refine foldlM_preserves (fun c hmem s s' hs hmid => ?_) h hw
  rw [bracket_eq_close (hc c hmem)] at hmid
  obtain ⟨o, rfl, _⟩ := close_eq_ok.1 hmid
  exact fun a ha => hs a (List.mem_cons_of_mem o ha)

/-! ### The counts from line to line -/

def Context.tally (ctx : Context) : State := ⟨ctx.stack, runs ctx.stack, ctx.chained⟩

theorem isCloser_of_mem_leading {t : List Char} {c : Char} (h : c ∈ t.takeWhile isCloser) :
    isCloser c = true := List.mem_takeWhile_imp h

/-- At the end of a line its own brackets become a run. -/
theorem Current.runs_eq {n : Nat} {stack : List Open} (h : Current n stack) :
    (if 0 < (progress n stack).own then (progress n stack).own :: (progress n stack).groups
      else (progress n stack).groups) = runs stack := by
  obtain ⟨own, older, rfl, hown, hold⟩ := h
  rw [progress_append hown hold]
  cases own with
  | nil => rfl
  | cons o own => exact (runs_block (List.cons_ne_nil o own) hown hold.head_ne).symm

theorem Current.foldlM {n : Nat} {stack stack' : List Open} (h : Current n stack) {w : List Char}
    (hw : w.foldlM (Layout.bracket n) stack = .ok stack') : Current n stack' :=
  foldlM_preserves (fun _ _ _ _ hs hc => hs.bracket hc) h hw

/-- **One line of the pass**, with its counts and without. -/
theorem passLine_tally {n : Nat} {ctx : Context} (h : Older n ctx.stack) (line : List Char) :
    passLine n ctx.tally line = (layLine n ctx line).map fun p => (p.1, p.2.tally) := by
  rw [passLine, layLine]
  dsimp only
  cases hs : scan (trim line) with
  | error e => rfl
  | ok w =>
    obtain ⟨rest, rfl⟩ := takeWhile_prefix_of_scan hs
    have hinner := h.progress_eq
    have hin : ¬ ((trim line).takeWhile isCloser ++ rest).length
        < ((trim line).takeWhile isCloser).length := by simp
    simp only [mapError_ok, ok_bind, if_neg hin, List.take_left, List.drop_left, Context.tally,
      ← hinner, foldlM_closeLeading h fun _ => isCloser_of_mem_leading]
    cases hlead : ((trim line).takeWhile isCloser).foldlM (bracket n) ctx.stack with
    | error e => rfl
    | ok outer =>
      have houter := h.closers (fun _ => isCloser_of_mem_leading) hlead
      simp only [Except.map, ok_bind, foldlM_readBracket houter.current]
      cases hlast : rest.foldlM (bracket n) outer with
      | error e => rfl
      | ok stack =>
        have hruns := (houter.current.foldlM hlast).runs_eq
        simp only [ok_bind, hruns, houter.progress_eq, length_runs, indentation]
        rfl

theorem layLine_older {n : Nat} {ctx ctx' : Context} {line text : List Char}
    (h : Older n ctx.stack) (hl : layLine n ctx line = .ok (text, ctx')) :
    Older (n + 1) ctx'.stack := by
  simp only [layLine, bind_eq_ok, pure_eq_ok, Prod.mk.injEq] at hl
  obtain ⟨w, _, outer, houter, stack, hstack, _, rfl⟩ := hl
  exact ((h.mono (Nat.le_succ n)).foldlM houter).foldlM hstack

/-- The end of the pass: every bracket must be closed. -/
theorem passLines_layLines {n : Nat} {ctx : Context} (h : Older n ctx.stack)
    (ls : List (List Char)) :
    (do let (texts, s) ← passLines n ctx.tally ls
        match s.stack with
        | [] => return texts
        | o :: _ => throw (.unclosed o.opener o.line)) = layLines n ctx ls := by
  induction ls generalizing n ctx with
  | nil =>
    rw [passLines, layLines, ok_bind]
    dsimp only [Context.tally]
    cases ctx.stack <;> rfl
  | cons line r ih =>
    rw [passLines, layLines, passLine_tally h]
    cases hl : layLine n ctx line with
    | error e => rfl
    | ok p =>
      obtain ⟨text, ctx'⟩ := p
      have hrest := ih (layLine_older h hl)
      simp only [Except.map, ok_bind]
      rw [← hrest]
      cases passLines (n + 1) ctx'.tally r with
      | error e => rfl
      | ok q =>
        obtain ⟨texts, stack, groups, chained⟩ := q
        cases stack <;> rfl

end QueryScribe.Layout
