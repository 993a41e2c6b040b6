import Mathlib.Data.List.Induction
import QueryScribe.Proofs.Layout.Lexing
import QueryScribe.Proofs.Layout.Lines
import QueryScribe.Proofs.Layout.Stable

/-!
# Brackets that stay open

A bracket of a word is closed in what follows it if a nested word comes first and then its
closer (`ClosedIn`).  The brackets that nothing closes are just those that the pass keeps on its
stack: a word that the pass gets through is made of nested words and, between them, of
the brackets that stay open, outermost first (`Leaves`).  `leaves_of_foldlM` takes such a
word apart, and what is said here of a bracket on the stack is read off the parts.

All this does not depend on what else is known of a bracket, so that it is stated for
letters that stand for brackets.  The pass has brackets with the number of their line;
`passLines_words` says what a run over some lines leaves open.
-/

namespace QueryScribe.Layout

open QueryScribe.Text QueryScribe.Outcome

/-- A bracket is closed in what follows it: a nested word and then its closer. -/
def ClosedIn (opener : Char) (w : List Char) : Prop :=
  ∃ inner r, w = inner ++ closerFor opener :: r ∧ Nested inner

section Letters

variable {α : Type} (f : α → Char)

/-- One more letter after those whose brackets are still open, the innermost first. -/
def meet (opened : List α) (a : α) : Option (List α) :=
  if isCloser (f a) then
    match opened with
    | [] => none
    | o :: r => if closerFor (f o) = f a then some r else none
  else some (a :: opened)

/-- A word and the letters whose brackets it leaves open, the innermost first. -/
inductive Leaves : List α → List α → Prop
  | nested {w : List α} : Nested (w.map f) → Leaves w []
  | opener {p inner s : List α} {a : α} : Leaves p s → isOpener (f a) = true →
      Nested (inner.map f) → Leaves (p ++ a :: inner) (a :: s)

variable {f}

theorem meet_eq_some {opened opened' : List α} {a : α} :
    meet f opened a = some opened' ↔ (isCloser (f a) = false ∧ opened' = a :: opened)
      ∨ isCloser (f a) = true ∧ ∃ o, opened = o :: opened' ∧ closerFor (f o) = f a := by
  unfold meet
  cases hc : isCloser (f a) with
  | false => simp [eq_comm]
  | true =>
    cases opened with
    | nil => simp
    | cons o r => simp [and_comm]

theorem foldlM_meet_cons {a : α} {w s t : List α} :
    (a :: w).foldlM (meet f) s = some t
      ↔ ∃ mid, meet f s a = some mid ∧ w.foldlM (meet f) mid = some t := by
  rw [List.foldlM_cons, Option.bind_eq_bind, Option.bind_eq_some_iff]

theorem foldlM_meet_append {v w s t : List α} :
    (v ++ w).foldlM (meet f) s = some t
      ↔ ∃ mid, v.foldlM (meet f) s = some mid ∧ w.foldlM (meet f) mid = some t := by
  rw [List.foldlM_append, Option.bind_eq_bind, Option.bind_eq_some_iff]

theorem Nested.foldlM_meet {v : List Char} (h : Nested v) {w : List α} (hw : w.map f = v)
    (s : List α) : w.foldlM (meet f) s = some s := by
  induction h generalizing w s with
  | nil =>
    obtain rfl := List.map_eq_nil_iff.1 hw
    rfl
  | wrap b _ _ ihinner ihrest =>
    obtain ⟨o, _, rfl, ho, hw⟩ := List.map_eq_cons_iff.1 hw
    obtain ⟨inner, _, rfl, hinner, hw⟩ := List.map_eq_append_iff.1 hw
    obtain ⟨c, rest, rfl, hc, hrest⟩ := List.map_eq_cons_iff.1 hw
    have hopen : meet f s o = some (o :: s) :=
      meet_eq_some.2 (.inl ⟨by rw [ho]; cases b <;> rfl, rfl⟩)
    have hclose : meet f (o :: s) c = some s :=
      meet_eq_some.2 (.inr ⟨by rw [hc]; cases b <;> rfl, o, rfl, by rw [ho, hc]; cases b <;> rfl⟩)
    exact foldlM_meet_cons.2 ⟨_, hopen, foldlM_meet_append.2
      ⟨_, ihinner hinner (o :: s), foldlM_meet_cons.2 ⟨s, hclose, ihrest hrest s⟩⟩⟩

theorem exists_bracket {c : Char} (h : isOpener c = true) :
    ∃ b : Bracket, b.opener = c ∧ b.closer = closerFor c := by
  simp only [isOpener, Bool.or_eq_true, decide_eq_true_eq] at h
  rcases h with (rfl | rfl) | rfl
  · exact ⟨.round, rfl, rfl⟩
  · exact ⟨.square, rfl, rfl⟩
  · exact ⟨.curly, rfl, rfl⟩

theorem isCloser_of_isOpener {c : Char} (h : isOpener c = true) : isCloser c = false := by
  obtain ⟨b, rfl, _⟩ := exists_bracket h
  cases b <;> rfl

/-- A bracket around a nested word, and another nested word behind. -/
theorem Nested.wrap_opener {c : Char} (hc : isOpener c = true) {v w : List Char} (hv : Nested v)
    (hw : Nested w) : Nested (c :: (v ++ closerFor c :: w)) := by
  obtain ⟨b, rfl, hb⟩ := exists_bracket hc
  rw [← hb]
  exact .wrap b hv hw

/-! ### Words taken apart -/

theorem Leaves.append_nested {w s : List α} (h : Leaves f w s) {v : List α}
    (hv : Nested (v.map f)) : Leaves f (w ++ v) s := by
  cases h with
  | nested hw => exact .nested (by rw [List.map_append]; exact hw.append hv)
  | opener hp ho hi =>
    rw [List.append_assoc, List.cons_append]
    exact .opener hp ho (by rw [List.map_append]; exact hi.append hv)

/-- **A word that is met from its beginning** is made of nested words and of the brackets that stay
open. -/
theorem leaves_of_foldlM {w s : List α}
    (hw : ∀ a ∈ w, (isOpener (f a) || isCloser (f a)) = true)
    (h : w.foldlM (meet f) [] = some s) : Leaves f w s := by
  induction w using List.reverseRecOn generalizing s with
  | nil => exact Option.some.inj h ▸ .nested .nil
  | append_singleton w a ih =>
    obtain ⟨mid, hmid, ha⟩ := foldlM_meet_append.1 h
    obtain ⟨last, hlast, he⟩ := foldlM_meet_cons.1 ha
    obtain rfl := Option.some.inj he
    have hrest := ih (fun b hb => hw b (List.mem_append_left _ hb)) hmid
    rcases meet_eq_some.1 hlast with ⟨hc, rfl⟩ | ⟨hc, o, rfl, ho⟩
    · have hopen := hw a (List.mem_append_right _ List.mem_cons_self)
      rw [hc, Bool.or_false] at hopen
      exact .opener hrest hopen .nil
    · cases hrest with
      | @opener p inner _ _ hp hopener hinner =>
        have hpair := hinner.wrap_opener hopener .nil
        rw [List.append_assoc, List.cons_append]
        refine hp.append_nested ?_
        rwa [List.map_cons, List.map_append, List.map_singleton, ← ho]

theorem Leaves.foldlM {w s : List α} (h : Leaves f w s) : w.foldlM (meet f) [] = some s := by
  induction h with
  | nested hw => exact hw.foldlM_meet rfl []
  | @opener p inner s a _ ho hinner ih =>
    have hc := isCloser_of_isOpener ho
    exact foldlM_meet_append.2 ⟨s, ih, foldlM_meet_cons.2
      ⟨a :: s, meet_eq_some.2 (.inl ⟨hc, rfl⟩), hinner.foldlM_meet rfl _⟩⟩

theorem Leaves.nested_map {w : List α} (h : Leaves f w []) : Nested (w.map f) := by
  cases h with
  | nested hw => exact hw

theorem nested_of_foldlM {w : List α} (hw : ∀ a ∈ w, (isOpener (f a) || isCloser (f a)) = true)
    (h : w.foldlM (meet f) [] = some []) : Nested (w.map f) := (leaves_of_foldlM hw h).nested_map

/-- Each bracket that stays open stands in the word. -/
theorem Leaves.split {t s w : List α} {o : α} (h : Leaves f w (t ++ o :: s)) :
    ∃ p r, w = p ++ o :: r ∧ isOpener (f o) = true ∧ Leaves f p s ∧ Leaves f r t := by
  induction t generalizing w with
  | nil =>
    cases h with
    | opener hp ho hinner => exact ⟨_, _, rfl, ho, hp, .nested hinner⟩
  | cons b t ih =>
    cases h with
    | @opener _ inner _ _ hp hb hinner =>
      obtain ⟨p, r, rfl, ho, hs, ht⟩ := ih hp
      refine ⟨p, r ++ b :: inner, ?_, ho, hs, .opener ht hb hinner⟩
      rw [List.append_assoc, List.cons_append]

/-- Where a word is met, no bracket in front of it is closed in it. -/
theorem Leaves.not_closedIn {w s : List α} (h : Leaves f w s) (c : Char) :
    ¬ ClosedIn c (w.map f) := by
  rintro ⟨inner, r, hw, hinner⟩
  obtain ⟨v, _, rfl, hv, hw⟩ := List.map_eq_append_iff.1 hw
  obtain ⟨a, r, rfl, ha, _⟩ := List.map_eq_cons_iff.1 hw
  obtain ⟨mid, hmid, hrest⟩ := foldlM_meet_append.1 h.foldlM
  rw [hinner.foldlM_meet hv, Option.some.injEq] at hmid
  subst hmid
  obtain ⟨last, hlast, _⟩ := foldlM_meet_cons.1 hrest
  rcases meet_eq_some.1 hlast with ⟨hc, _⟩ | ⟨_, o, ho, _⟩
  · rw [ha, isCloser_closerFor] at hc
    exact absurd hc nofun
  · exact absurd ho (List.cons_ne_nil o last).symm

/-- A word is met above what is open, or it comes to close some of that. -/
theorem foldlM_meet_above {w t b s : List α} (h : w.foldlM (meet f) (t ++ b) = some s) :
    (∃ t', w.foldlM (meet f) t = some t' ∧ s = t' ++ b)
      ∨ ∃ v a r o b', w = v ++ a :: r ∧ v.foldlM (meet f) t = some [] ∧ b = o :: b'
        ∧ closerFor (f o) = f a := by
  induction w generalizing t with
  | nil => exact .inl ⟨t, rfl, (Option.some.inj h).symm⟩
  | cons a w ih =>
    obtain ⟨mid, ha, hw⟩ := foldlM_meet_cons.1 h
    -- either way the letter is met above what is open, or it closes the first of that
    have go {t₁ : List α} (hstep : meet f t a = some t₁) (hmid : mid = t₁ ++ b) :
        (∃ t', (a :: w).foldlM (meet f) t = some t' ∧ s = t' ++ b)
          ∨ ∃ v c r o b', a :: w = v ++ c :: r ∧ v.foldlM (meet f) t = some [] ∧ b = o :: b'
            ∧ closerFor (f o) = f c := by
      rw [hmid] at hw
      rcases ih hw with ⟨t', ht, hs⟩ | ⟨v, c, r, o, b', rfl, hv, hb, ho⟩
      · exact .inl ⟨t', foldlM_meet_cons.2 ⟨t₁, hstep, ht⟩, hs⟩
      · exact .inr ⟨a :: v, c, r, o, b', rfl, foldlM_meet_cons.2 ⟨t₁, hstep, hv⟩, hb, ho⟩
    rcases meet_eq_some.1 ha with ⟨hc, rfl⟩ | ⟨hc, o, he, ho⟩
    · exact go (meet_eq_some.2 (.inl ⟨hc, rfl⟩)) rfl
    · cases t with
      | nil => exact .inr ⟨[], a, w, o, mid, rfl, rfl, he, ho⟩
      | cons o' t =>
        obtain ⟨rfl, rfl⟩ := List.cons.inj he
        exact go (meet_eq_some.2 (.inr ⟨hc, o', rfl, ho⟩)) rfl

/-- **A bracket stays on the stack exactly if nothing closes it.** -/
theorem not_closedIn_iff {w b s : List α} {o : α}
    (hw : ∀ a ∈ w, (isOpener (f a) || isCloser (f a)) = true)
    (h : w.foldlM (meet f) (o :: b) = some s) :
    ¬ ClosedIn (f o) (w.map f) ↔ ∃ t, Leaves f w t ∧ s = t ++ o :: b := by
  constructor
  · intro hopen
    rcases foldlM_meet_above (t := []) h with ⟨t, ht, rfl⟩ | ⟨v, a, r, o', b', rfl, hv, hb, ho⟩
    · exact ⟨t, leaves_of_foldlM hw ht, rfl⟩
    · obtain ⟨rfl, rfl⟩ := List.cons.inj hb
      have hinner := nested_of_foldlM (fun c hc => hw c (List.mem_append_left _ hc)) hv
      exact absurd ⟨v.map f, r.map f, by rw [List.map_append, List.map_cons, ho], hinner⟩ hopen
  · rintro ⟨t, ht, _⟩
    exact ht.not_closedIn _

end Letters

/-! ### Brackets of lines -/

def word (line : List Char) : List Char := (scan (trim line)).toOption.getD []

/-- Brackets with the number of their line. -/
def placed (n : Nat) (w : List Char) : List Open := w.map (Open.mk · n)

def words (n : Nat) : List (List Char) → List Open
  | [] => []
  | l :: ls => placed n (word l) ++ words (n + 1) ls

/-- A line has a bracket that is not closed in the rest of a word. -/
def LeftOpen (w : List Open) (line : Nat) : Prop :=
  ∃ p o r, w = p ++ o :: r ∧ o.line = line ∧ isOpener o.opener = true
    ∧ ¬ ClosedIn o.opener (r.map Open.opener)

/-- **The lines of the open brackets** are those with a bracket that is not closed. -/
theorem leftOpen_iff {w s : List Open}
    (hw : ∀ a ∈ w, (isOpener a.opener || isCloser a.opener) = true)
    (h : w.foldlM (meet Open.opener) [] = some s) {line : Nat} :
    LeftOpen w line ↔ ∃ o ∈ s, o.line = line := by
  constructor
  · rintro ⟨p, o, r, rfl, hline, hopener, hopen⟩
    obtain ⟨mid, _, hr⟩ := foldlM_meet_append.1 h
    obtain ⟨mid', ho, hr⟩ := foldlM_meet_cons.1 hr
    have hc := isCloser_of_isOpener hopener
    rcases meet_eq_some.1 ho with ⟨_, rfl⟩ | ⟨hc', _⟩
    · have hrest : ∀ a ∈ r, (isOpener a.opener || isCloser a.opener) = true := fun a ha =>
        hw a (List.mem_append_right _ (List.mem_cons_of_mem o ha))
      obtain ⟨t, _, rfl⟩ := (not_closedIn_iff hrest hr).1 hopen
      exact ⟨o, List.mem_append_right _ List.mem_cons_self, hline⟩
    · rw [hc] at hc'
      exact absurd hc' nofun
  · rintro ⟨o, ho, hline⟩
    obtain ⟨t, b, rfl⟩ := List.append_of_mem ho
    obtain ⟨p, r, rfl, hopener, _, hr⟩ := (leaves_of_foldlM hw h).split
    exact ⟨p, o, r, rfl, hline, hopener, hr.not_closedIn _⟩

theorem foldlM_bracket_iff {n : Nat} {w : List Char} {s t : List Open} :
    w.foldlM (bracket n) s = .ok t ↔ (placed n w).foldlM (meet Open.opener) s = some t := by
  induction w generalizing s with
  | nil => exact pure_eq_ok.trans (Option.some.injEq s t ▸ Iff.rfl)
  | cons c w ih =>
    rw [placed, List.map_cons, foldlM_meet_cons, List.foldlM_cons, bind_eq_ok]
    refine exists_congr fun mid => and_congr ?_ ih
    rw [bracket_eq_ok, meet_eq_some]

theorem isBracket_word (line : List Char) : ∀ c ∈ word line, (isOpener c || isCloser c) = true := by
  rw [word]
  cases h : scan (trim line) with
  | error e => exact fun c hc => absurd hc List.not_mem_nil
  | ok w => exact (lexes_of_scan h).isBracket

theorem isBracket_placed {n : Nat} {w : List Char}
    (h : ∀ c ∈ w, (isOpener c || isCloser c) = true) :
    ∀ a ∈ placed n w, (isOpener a.opener || isCloser a.opener) = true := by
  intro a ha
  obtain ⟨c, hc, rfl⟩ := List.mem_map.1 ha
  exact h c hc

theorem isBracket_words {n : Nat} (ls : List (List Char)) :
    ∀ a ∈ words n ls, (isOpener a.opener || isCloser a.opener) = true := by
  induction ls generalizing n with
  | nil => exact fun a ha => absurd ha List.not_mem_nil
  | cons l ls ih =>
    intro a ha
    rcases List.mem_append.1 ha with ha | ha
    · exact isBracket_placed (isBracket_word l) a ha
    · exact ih a ha

theorem map_opener_placed (n : Nat) (w : List Char) : (placed n w).map Open.opener = w := by
  rw [placed, List.map_map]
  exact List.map_id w

theorem map_opener_words (n : Nat) (ls : List (List Char)) :
    (words n ls).map Open.opener = ls.flatMap word := by
  induction ls generalizing n with
  | nil => rfl
  | cons l ls ih => rw [words, List.map_append, map_opener_placed, ih, List.flatMap_cons]

theorem words_append (n : Nat) (ls ms : List (List Char)) :
    words n (ls ++ ms) = words n ls ++ words (n + ls.length) ms := by
  induction ls generalizing n with
  | nil => rfl
  | cons l ls ih =>
    rw [List.cons_append, words, ih, words, List.append_assoc, List.length_cons, Nat.add_assoc,
      Nat.add_comm 1]

/-! ### Runs and what they leave open -/

/-- What the pass does to a line, without its counts. -/
theorem layLine_eq_ok {n : Nat} {ctx ctx' : Context} {line text : List Char} :
    layLine n ctx line = .ok (text, ctx') ↔ ∃ rest outer stack,
      scan (trim line) = .ok ((trim line).takeWhile isCloser ++ rest)
      ∧ ((trim line).takeWhile isCloser).foldlM (bracket n) ctx.stack = .ok outer
      ∧ rest.foldlM (bracket n) outer = .ok stack
      ∧ text = indent (indentation ctx.chained outer) (trim line)
      ∧ ctx' = ⟨stack, ctx.chained || (stack.isEmpty && (trim line).getLast? = some '.')⟩ := by
  constructor
  · intro h
    simp only [layLine, bind_eq_ok, pure_eq_ok, Prod.mk.injEq] at h
    obtain ⟨w, hw, outer, houter, stack, hstack, rfl, rfl⟩ := h
    cases hs : scan (trim line) with
    | error e => rw [hs] at hw; cases hw
    | ok v =>
      rw [hs] at hw
      obtain rfl := Except.ok.inj hw
      obtain ⟨rest, rfl⟩ := takeWhile_prefix_of_scan hs
      rw [List.drop_left] at hstack
      exact ⟨rest, outer, stack, rfl, houter, hstack, rfl, rfl⟩
  · rintro ⟨rest, outer, stack, hscan, houter, hstack, rfl, rfl⟩
    exact layLine_eq n hscan houter (by rw [List.drop_left]; exact hstack)

theorem word_eq {line w : List Char} (h : scan (trim line) = .ok w) : word line = w := by
  rw [word, h]
  rfl

theorem layLine_word {n : Nat} {ctx ctx' : Context} {line text : List Char}
    (h : layLine n ctx line = .ok (text, ctx')) :
    (placed n (word line)).foldlM (meet Open.opener) ctx.stack = some ctx'.stack := by
  obtain ⟨rest, outer, stack, hscan, houter, hstack, _, rfl⟩ := layLine_eq_ok.1 h
  rw [word_eq hscan, ← foldlM_bracket_iff]
  exact (foldlM_append houter).trans hstack

/-- **What a run over some lines leaves behind**: its counts are those of the open brackets, and
these are the brackets of the lines that stay open. -/
theorem passLines_words {n : Nat} {ctx : Context} {s : State} {ls texts : List (List Char)}
    (h : Older n ctx.stack) (hp : passLines n ctx.tally ls = .ok (texts, s)) :
    ∃ last : Context, s = last.tally ∧ Older (n + ls.length) last.stack
      ∧ (words n ls).foldlM (meet Open.opener) ctx.stack = some last.stack := by
  induction ls generalizing n ctx texts with
  | nil =>
    obtain ⟨_, rfl⟩ := Prod.mk.inj (Except.ok.inj hp)
    exact ⟨ctx, rfl, h, rfl⟩
  | cons l ls ih =>
    simp only [passLines, bind_eq_ok, pure_eq_ok, Prod.mk.injEq] at hp
    obtain ⟨⟨text, mid⟩, hline, ⟨rest, _⟩, hlines, _, rfl⟩ := hp
    rw [passLine_tally h, map_eq_ok] at hline
    obtain ⟨⟨_, ctx'⟩, hlay, he⟩ := hline
    obtain ⟨_, rfl⟩ := Prod.mk.inj he
    obtain ⟨last, hs, hold, hwords⟩ := ih (layLine_older h hlay) hlines
    refine ⟨last, hs, ?_, foldlM_meet_append.2 ⟨_, layLine_word hlay, hwords⟩⟩
    rwa [List.length_cons, Nat.add_comm ls.length, ← Nat.add_assoc]

/-- What a run leaves behind that begins with the first line. -/
theorem words_of_passLines {s : State} {ls texts : List (List Char)}
    (hp : passLines 1 .start ls = .ok (texts, s)) :
    ∃ last : Context, s = last.tally ∧ Older (1 + ls.length) last.stack
      ∧ (words 1 ls).foldlM (meet Open.opener) [] = some last.stack := by
  have hstart : Older 1 Context.start.stack := older_nil 1
  exact passLines_words hstart hp

end QueryScribe.Layout
