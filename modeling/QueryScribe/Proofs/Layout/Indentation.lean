import Mathlib.Data.Set.Card
import QueryScribe.Proofs.Layout.Acceptance

/-!
# The number of tabs in front of a line

A line has a tab for each earlier line with a bracket that is still open after the closers that
the line starts with, and one more in a chain of calls (`tabsOf`).  The pass does not
look at those lines.  It has one count for each run of open brackets that stand
on one line, and takes as many tabs as it has counts.  The two numbers are the same since
the open brackets are a part of the brackets of the text, in their order: so those of a line stand
together on the stack, and no two runs belong to one line (`depth_eq_card`).
-/

namespace QueryScribe.Layout

open QueryScribe.Text QueryScribe.Outcome

/-- Lines of which one ends in a point, with no bracket open after it. -/
def Continues (ls : List (List Char)) : Prop :=
  ∃ before line after, ls = before ++ line :: after ∧ (trim line).getLast? = some '.'
    ∧ ∀ n, ¬ LeftOpen (words 1 (before ++ [line])) n

/-- The brackets of some lines, and the closers that the next line starts with. -/
def reached (before : List (List Char)) (row : List Char) : List Open :=
  words 1 before ++ placed (before.length + 1) ((trim row).takeWhile isCloser)

/-- The numbers of those of some lines that have a bracket open after the closers that the next
line starts with. -/
def openLines (before : List (List Char)) (row : List Char) : Set Nat :=
  {n | n ≤ before.length ∧ LeftOpen (reached before row) n}

open Classical in
/-- The tabs in front of a line that comes after others. -/
noncomputable def tabsOf (before : List (List Char)) (row : List Char) : Nat :=
  (if Continues before then 1 else 0) + (openLines before row).ncard

/-! ### Lines and runs -/

/-- What a word leaves open is a part of it, the innermost bracket last. -/
theorem Leaves.reverse_sublist {α : Type} {f : α → Char} {w s : List α} (h : Leaves f w s) :
    s.reverse.Sublist w := by
  induction h with
  | nested _ => exact List.nil_sublist _
  | @opener p inner s a _ _ _ ih =>
    rw [List.reverse_cons]
    exact ih.append ((List.nil_sublist inner).cons_cons a)

theorem line_of_mem_words {n : Nat} {ls : List (List Char)} {o : Open} (h : o ∈ words n ls) :
    n ≤ o.line := by
  induction ls generalizing n with
  | nil => exact absurd h List.not_mem_nil
  | cons l ls ih =>
    rcases List.mem_append.1 h with h | h
    · obtain ⟨c, _, rfl⟩ := List.mem_map.1 h
      exact Nat.le_refl n
    · exact Nat.le_of_succ_le (ih h)

theorem pairwise_words (n : Nat) (ls : List (List Char)) :
    (words n ls).Pairwise fun a b => a.line ≤ b.line := by
  induction ls generalizing n with
  | nil => exact .nil
  | cons l ls ih =>
    refine List.pairwise_append.2 ⟨?_, ih (n + 1), fun a ha b hb => ?_⟩
    · exact List.pairwise_map.2 (List.pairwise_of_forall fun _ _ => Nat.le_refl n)
    · obtain ⟨c, _, rfl⟩ := List.mem_map.1 ha
      exact Nat.le_of_succ_le (line_of_mem_words hb)

/-- **No two runs belong to one line** if lines further out are earlier. -/
theorem depth_eq_card {stack : List Open} (h : stack.Pairwise fun a b => b.line ≤ a.line) :
    depth stack = (stack.map Open.line).toFinset.card := by
  induction stack with
  | nil => rfl
  | cons a r ih =>
    obtain ⟨ha, hr⟩ := List.pairwise_cons.1 h
    cases r with
    | nil => rfl
    | cons b r =>
      rw [depth, List.map_cons, List.toFinset_cons]
      split
      · rename_i hline
        have hmem : a.line ∈ ((b :: r).map Open.line).toFinset := by
          rw [List.mem_toFinset, hline]
          exact List.mem_cons_self
        rw [Finset.insert_eq_of_mem hmem, ih hr]
      · rename_i hline
        have hmem : a.line ∉ ((b :: r).map Open.line).toFinset := by
          rw [List.mem_toFinset, List.mem_map]
          rintro ⟨o, ho, he⟩
          have hab := ha b List.mem_cons_self
          have hbo : o.line ≤ b.line := by
            rcases List.mem_cons.1 ho with rfl | ho
            · exact Nat.le_refl _
            · exact (List.pairwise_cons.1 hr).1 o ho
          omega
        rw [Finset.card_insert_of_notMem hmem, ih hr]

/-! ### The state before a line -/

theorem continues_concat {ls : List (List Char)} {l : List Char} :
    Continues (ls ++ [l]) ↔ Continues ls
      ∨ (trim l).getLast? = some '.' ∧ ∀ n, ¬ LeftOpen (words 1 (ls ++ [l])) n := by
  constructor
  · rintro ⟨before, line, after, hsplit, hpoint, hclosed⟩
    rcases List.eq_nil_or_concat' after with rfl | ⟨after, last, rfl⟩
    · obtain ⟨rfl, he⟩ := List.append_inj' hsplit rfl
      obtain rfl := List.singleton_inj.1 he
      exact .inr ⟨hpoint, hclosed⟩
    · rw [← List.cons_append, ← List.append_assoc] at hsplit
      exact .inl ⟨before, line, after, (List.append_inj' hsplit rfl).1, hpoint, hclosed⟩
  · rintro (⟨before, line, after, rfl, hpoint, hclosed⟩ | ⟨hpoint, hclosed⟩)
    · exact ⟨before, line, after ++ [l], by simp, hpoint, hclosed⟩
    · exact ⟨ls, l, [], rfl, hpoint, hclosed⟩

theorem passLines_concat {n : Nat} {s last : State} {ls texts : List (List Char)} {l : List Char} :
    passLines n s (ls ++ [l]) = .ok (texts, last)
      ↔ ∃ first mid text, passLines n s ls = .ok (first, mid)
        ∧ passLine (n + ls.length) mid l = .ok (text, last) ∧ texts = first ++ [text] := by
  rw [passLines_append]
  refine exists_congr fun first => exists_congr fun mid => ?_
  simp only [passLines, bind_eq_ok, pure_eq_ok, Prod.mk.injEq]
  constructor
  · rintro ⟨_, hfirst, ⟨⟨text, _⟩, hl, _, hend, rfl, rfl⟩, rfl⟩
    obtain rfl := Except.ok.inj hend
    exact ⟨text, hfirst, hl, rfl⟩
  · rintro ⟨text, hfirst, hl, rfl⟩
    exact ⟨_, hfirst, ⟨_, hl, _, rfl, rfl, rfl⟩, rfl⟩

/-- A chain of calls goes on if a line before ends in a point outside all brackets. -/
theorem chained_iff {ls texts : List (List Char)} {s : State}
    (hp : passLines 1 .start ls = .ok (texts, s)) : s.chained = true ↔ Continues ls := by
  induction ls using List.reverseRecOn generalizing texts s with
  | nil =>
    obtain ⟨_, rfl⟩ := Prod.mk.inj (Except.ok.inj hp)
    refine iff_of_false nofun ?_
    rintro ⟨before, line, after, h, _⟩
    exact absurd h.symm (List.append_ne_nil_of_right_ne_nil _ (List.cons_ne_nil _ _))
  | append_singleton ls l ih =>
    obtain ⟨ctx, rfl, _, hwords⟩ := words_of_passLines hp
    obtain ⟨first, mid, text, hfirst, hl, _⟩ := passLines_concat.1 hp
    obtain ⟨_, _, end_, _, _, _, _, hs⟩ := passLine_eq_ok.1 hl
    have hempty : ctx.stack.isEmpty = true ↔ ∀ n, ¬ LeftOpen (words 1 (ls ++ [l])) n := by
      simp only [leftOpen_iff (isBracket_words _) hwords, List.isEmpty_iff]
      constructor
      · rintro h n ⟨o, ho, _⟩
        exact absurd (h ▸ ho) List.not_mem_nil
      · exact fun h => List.eq_nil_iff_forall_not_mem.2 fun o ho => h o.line ⟨o, ho, rfl⟩
    have hchained : ctx.tally.chained
        = (mid.chained || (ctx.stack.isEmpty && (trim l).getLast? = some '.')) := by
      have hstack : ctx.tally.stack = end_.stack := congrArg State.stack hs
      rw [← show ctx.tally.stack = ctx.stack from rfl, hstack]
      exact congrArg State.chained hs
    rw [hchained, continues_concat, ← ih hfirst, ← hempty, Bool.or_eq_true, Bool.and_eq_true,
      decide_eq_true_eq, and_comm (a := ctx.stack.isEmpty = true)]

/-- What is reached with the leading closers is the beginning of the brackets of these lines. -/
theorem reached_prefix {before : List (List Char)} {row rest : List Char}
    (h : scan (trim row) = .ok ((trim row).takeWhile isCloser ++ rest)) :
    reached before row <+: words 1 (before ++ [row]) := by
  rw [reached, words_append, words, words, List.append_nil, word_eq h, placed, placed,
    List.map_append, Nat.add_comm 1, ← List.append_assoc]
  exact List.prefix_append _ _

/-- **There are as many open lines as runs of open brackets.** -/
theorem ncard_openLines {before : List (List Char)} {row rest : List Char} {outer : List Open}
    (hscan : scan (trim row) = .ok ((trim row).takeWhile isCloser ++ rest))
    (hfold : (reached before row).foldlM (meet Open.opener) [] = some outer)
    (hold : Older (1 + before.length) outer) : (openLines before row).ncard = depth outer := by
  have hpart : reached before row <+: words 1 (before ++ [row]) := reached_prefix hscan
  have hbrackets := fun a ha => isBracket_words (before ++ [row]) a (hpart.subset ha)
  have hsorted : outer.Pairwise fun a b => b.line ≤ a.line := List.pairwise_reverse.1
    ((pairwise_words 1 (before ++ [row])).sublist
      ((leaves_of_foldlM hbrackets hfold).reverse_sublist.trans hpart.sublist))
  have hlines : openLines before row = ((outer.map Open.line).toFinset : Set Nat) := by
    ext n
    rw [openLines, Set.mem_ofPred_eq, leftOpen_iff hbrackets hfold, Finset.mem_coe,
      List.mem_toFinset, List.mem_map]
    refine and_iff_right_of_imp ?_
    rintro ⟨o, ho, rfl⟩
    have := hold o ho
    omega
  rw [hlines, Set.ncard_coe_finset, depth_eq_card hsorted]

/-- **What a run makes of a line**: the line behind as many tabs as the lines before it say. -/
theorem passLine_tabs {before first : List (List Char)} {mid s : State} {row text : List Char}
    (hp : passLines 1 .start before = .ok (first, mid))
    (hl : passLine (1 + before.length) mid row = .ok (text, s)) :
    text = indent (tabsOf before row) (trim row) := by
  have hchained := chained_iff hp
  obtain ⟨ctx, rfl, hold, hwords⟩ := words_of_passLines hp
  rw [passLine_tally hold, map_eq_ok] at hl
  obtain ⟨⟨_, ctx'⟩, hlay, he⟩ := hl
  obtain ⟨rfl, _⟩ := Prod.mk.inj he
  obtain ⟨rest, outer, stack, hscan, houter, _, rfl, _⟩ := layLine_eq_ok.1 hlay
  have holder := hold.closers (fun _ => isCloser_of_mem_leading) houter
  have hfold : (reached before row).foldlM (meet Open.opener) [] = some outer := by
    rw [Nat.add_comm] at houter
    exact foldlM_meet_append.2 ⟨_, hwords, foldlM_bracket_iff.1 houter⟩
  have htabs : indentation ctx.chained outer = tabsOf before row := by
    rw [indentation, tabsOf, ncard_openLines hscan hfold holder]
    simp only [← hchained]
    rfl
  rw [htabs]

/-- The lines of a text behind their tabs. -/
noncomputable def laidRows (ls : List (List Char)) : List (List Char) :=
  ls.mapIdx fun i row => indent (tabsOf (ls.take i) row) (trim row)

theorem laidRows_concat (ls : List (List Char)) (row : List Char) :
    laidRows (ls ++ [row]) = laidRows ls ++ [indent (tabsOf ls row) (trim row)] := by
  have hbefore : (ls.mapIdx fun i r => indent (tabsOf ((ls ++ [row]).take i) r) (trim r))
      = laidRows ls := by
    refine List.mapIdx_eq_mapIdx_iff.2 fun i hi => ?_
    rw [List.take_append_of_le_length hi.le]
  rw [laidRows, List.mapIdx_concat, hbefore, List.take_left]

theorem passLines_laidRows {ls texts : List (List Char)} {s : State}
    (hp : passLines 1 .start ls = .ok (texts, s)) : texts = laidRows ls := by
  induction ls using List.reverseRecOn generalizing texts s with
  | nil => exact (Prod.mk.inj (Except.ok.inj hp)).1.symm
  | append_singleton ls l ih =>
    obtain ⟨first, mid, text, hfirst, hl, rfl⟩ := passLines_concat.1 hp
    rw [laidRows_concat, ih hfirst, passLine_tabs hfirst hl]

/-! ### The counts -/

theorem format_ne_lapse (raw : List Char) (n : Nat) (l : Lapse) :
    format raw ≠ .error (.lapse n l) := by
  intro h
  rw [format] at h
  cases hp : passLines 1 .start (rows raw) with
  | error e =>
    rw [hp] at h
    obtain rfl := Except.error.inj h
    obtain ⟨before, row, _, _, _, _, hbefore, hl⟩ := exists_line_of_error hp
    obtain ⟨ctx, rfl, hold, _⟩ := words_of_passLines hbefore
    cases onLine_of_passLine hold hl
  | ok p =>
    obtain ⟨texts, s⟩ := p
    rw [hp, ok_bind] at h
    dsimp only at h
    split at h
    · cases h
    · cases Except.error.inj h

/-- **The number of tabs.**  A line of a laid-out text has a tab for each earlier line with a
bracket that is open after the leading closers, and one more if an earlier line ended in a point
outside all brackets.  Before every line, whether or not the text is accepted in the end, the counts
are the lengths of the runs of open brackets that stand on one line; and no count fails. -/
theorem indentation_law (raw : String) :
    (∀ out, formatCode raw = .ok out →
      out.toList = join (strip (laidRows (rows raw.toList))))
      ∧ (∀ i texts s, passLines 1 .start ((rows raw.toList).take i) = .ok (texts, s) →
        s.groups = runs s.stack)
      ∧ ∀ n l, format raw.toList ≠ .error (.lapse n l) := by
  refine ⟨fun out h => ?_, fun i texts s hp => ?_, format_ne_lapse _⟩
  · obtain ⟨texts, s, hp, _, hout⟩ := format_eq_ok.1 (formatCode_eq_ok.1 h)
    rw [← hout, (rows_of_format hp).1, passLines_laidRows hp]
  · obtain ⟨ctx, rfl, _, _⟩ := words_of_passLines hp
    rfl

/-- The second line closes one of the two brackets of the first and opens another. -/
theorem indentation_law_reopened :
    formatCode "f(g(\nx)(\ny\n))" = .ok "f(g(\n\tx)(\n\t\ty\n))"
      ∧ "f(g(\n\tx)(\n\t\ty\n))".toList
        = join (strip (laidRows (rows "f(g(\nx)(\ny\n))".toList))) := by
  have h : formatCode "f(g(\nx)(\ny\n))" = .ok "f(g(\n\tx)(\n\t\ty\n))" := by decide +kernel
  exact ⟨h, (indentation_law "f(g(\nx)(\ny\n))").1 _ h⟩

end QueryScribe.Layout
