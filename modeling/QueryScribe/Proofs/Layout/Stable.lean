import QueryScribe.Proofs.Layout.Nesting
import QueryScribe.Query

/-!
# The layout changes white space only

The pass looks at a line only after it has trimmed it, and the numbers of the lines go into its
messages alone.  So what it makes of some lines is the same for any lines that are
trimmed to the same texts, and for any numbers: `passLines_matches` compares two runs
whose open brackets are of the same kinds and whose counts are equal.  A laid-out text
has the lines of the text, each behind its tabs and without the empty ones at the ends; the first
of them has no tab, so that trimming the whole takes none away.  Laying it out again is a
second run that finds the same lines.
-/

namespace QueryScribe.Layout

open QueryScribe.Text QueryScribe.Outcome

/-! ### Runs that differ in the numbers of lines -/

/-- The same reading of a line but for the lines of the open brackets. -/
structure Progress.Matches (p q : Progress) : Prop where
  openers : openers p.stack = openers q.stack
  groups : p.groups = q.groups
  own : p.own = q.own

/-- The same state but for the lines of the open brackets. -/
structure State.Matches (s t : State) : Prop where
  openers : openers s.stack = openers t.stack
  groups : s.groups = t.groups
  chained : s.chained = t.chained

theorem State.Matches.rfl {s : State} : s.Matches s := ⟨Eq.refl _, Eq.refl _, Eq.refl _⟩

theorem isEmpty_of_openers {s t : List Open} (h : openers s = openers t) :
    s.isEmpty = t.isEmpty := by
  have : (openers s).isEmpty = (openers t).isEmpty := congrArg _ h
  rwa [openers, openers, List.isEmpty_map, List.isEmpty_map] at this

theorem close_matches {n m : Nat} {c : Char} {s t s' : List Open} (h : openers s = openers t)
    (hc : close n c s = .ok s') : ∃ t', close m c t = .ok t' ∧ openers s' = openers t' := by
  obtain ⟨o, rfl, ho⟩ := close_eq_ok.1 hc
  cases t with
  | nil => exact absurd h (List.cons_ne_nil _ _)
  | cons o' t =>
    obtain ⟨hopener, hrest⟩ := List.cons.inj h
    exact ⟨t, close_eq_ok.2 ⟨o', rfl, hopener ▸ ho⟩, hrest⟩

theorem release_number {n m : Nat} {groups groups' : List Nat}
    (h : release n groups = .ok groups') : release m groups = .ok groups' := by
  cases groups with
  | nil => exact h
  | cons k r =>
    cases k with
    | zero => exact absurd h nofun
    | succ k => exact h

theorem closeLeading_matches {n m : Nat} {p q p' : Progress} (h : p.Matches q) {c : Char}
    (hp : closeLeading n p c = .ok p') : ∃ q', closeLeading m q c = .ok q' ∧ p'.Matches q' := by
  simp only [closeLeading, bind_eq_ok, pure_eq_ok] at hp
  obtain ⟨stack, hstack, groups, hgroups, rfl⟩ := hp
  obtain ⟨stack', hstack', hopeners⟩ := close_matches (m := m) h.openers hstack
  rw [h.groups] at hgroups
  refine ⟨⟨stack', groups, q.own⟩, ?_, ⟨hopeners, rfl, h.own⟩⟩
  rw [closeLeading, hstack', ok_bind, release_number hgroups]
  rfl

theorem readBracket_matches {n m : Nat} {p q p' : Progress} (h : p.Matches q) {c : Char}
    (hp : readBracket n p c = .ok p') : ∃ q', readBracket m q c = .ok q' ∧ p'.Matches q' := by
  unfold readBracket at hp
  split at hp
  case isFalse hc =>
    obtain rfl := Except.ok.inj hp
    refine ⟨⟨⟨c, m⟩ :: q.stack, q.groups, q.own + 1⟩, ?_, ⟨?_, h.groups, ?_⟩⟩
    · rw [readBracket, if_neg hc]
    · rw [openers, List.map_cons, openers, List.map_cons]
      exact congrArg _ h.openers
    · rw [h.own]
  case isTrue hc =>
    obtain ⟨stack, hstack, hp⟩ := bind_eq_ok.1 hp
    obtain ⟨stack', hstack', hopeners⟩ := close_matches (m := m) h.openers hstack
    rw [readBracket, if_pos hc, hstack', ok_bind, ← h.own, ← h.groups]
    by_cases hown : 0 < p.own
    · rw [if_pos hown] at hp ⊢
      obtain rfl := pure_eq_ok.1 hp
      exact ⟨_, rfl, hopeners, rfl, rfl⟩
    · rw [if_neg hown] at hp ⊢
      obtain ⟨groups, hgroups, hp⟩ := bind_eq_ok.1 hp
      obtain rfl := pure_eq_ok.1 hp
      rw [release_number hgroups]
      exact ⟨_, rfl, hopeners, rfl, rfl⟩

/-- What the pass does to a line that it accepts: its brackets are the closers that it starts with,
and others. -/
theorem passLine_eq_ok {n : Nat} {s s' : State} {line text : List Char} :
    passLine n s line = .ok (text, s') ↔ ∃ rest outer last,
      scan (trim line) = .ok ((trim line).takeWhile isCloser ++ rest)
      ∧ ((trim line).takeWhile isCloser).foldlM (closeLeading n) ⟨s.stack, s.groups, 0⟩ = .ok outer
      ∧ rest.foldlM (readBracket n) outer = .ok last
      ∧ text = indent ((if s.chained then 1 else 0) + outer.groups.length) (trim line)
      ∧ s' = ⟨last.stack, if 0 < last.own then last.own :: last.groups else last.groups,
        s.chained || (last.stack.isEmpty && (trim line).getLast? = some '.')⟩ := by
  rw [passLine]
  dsimp only
  cases hs : scan (trim line) with
  | error e =>
    refine iff_of_false (fun h => by cases h) ?_
    rintro ⟨_, _, _, h, _⟩
    cases h
  | ok w =>
    obtain ⟨rest, rfl⟩ := takeWhile_prefix_of_scan hs
    have hin : ¬ ((trim line).takeWhile isCloser ++ rest).length
        < ((trim line).takeWhile isCloser).length := by simp
    simp only [mapError_ok, ok_bind, if_neg hin, List.take_left, List.drop_left, bind_eq_ok,
      pure_eq_ok, Prod.mk.injEq, Except.ok.injEq, List.append_cancel_left_eq, @eq_comm _ text,
      @eq_comm _ s']
    constructor
    · rintro ⟨outer, houter, last, hlast, htext, hs'⟩
      exact ⟨rest, outer, last, rfl, houter, hlast, htext, hs'⟩
    · rintro ⟨_, outer, last, rfl, houter, hlast, htext, hs'⟩
      exact ⟨outer, houter, last, hlast, htext, hs'⟩

/-- **One line under two numbers.**  It becomes the same line, whatever white space is around it. -/
theorem passLine_matches {n m : Nat} {s t s' : State} (h : s.Matches t)
    {line line' text : List Char} (hl : trim line' = trim line)
    (hp : passLine n s line = .ok (text, s')) :
    ∃ t', passLine m t line' = .ok (text, t') ∧ s'.Matches t' := by
  obtain ⟨rest, outer, last, hscan, houter, hlast, rfl, rfl⟩ := passLine_eq_ok.1 hp
  have hfirst : Progress.Matches ⟨s.stack, s.groups, 0⟩ ⟨t.stack, t.groups, 0⟩ :=
    ⟨h.openers, h.groups, rfl⟩
  obtain ⟨outer', houter', hmid⟩ := foldlM_related (f := closeLeading n) (g := closeLeading m)
    (R := Progress.Matches) (fun _ _ _ _ h => closeLeading_matches h) hfirst houter
  obtain ⟨last', hlast', hend⟩ := foldlM_related (f := readBracket n) (g := readBracket m)
    (R := Progress.Matches) (fun _ _ _ _ h => readBracket_matches h) hmid hlast
  refine ⟨_, passLine_eq_ok.2 ⟨rest, outer', last', ?_, ?_, hlast', ?_, rfl⟩, hend.openers, ?_, ?_⟩
  · rw [hl]
    exact hscan
  · rw [hl]
    exact houter'
  · rw [hl, h.chained, hmid.groups]
  · dsimp only
    rw [hend.own, hend.groups]
  · dsimp only
    rw [hl, h.chained, isEmpty_of_openers hend.openers]

/-- **Lines under other numbers** become the same lines. -/
theorem passLines_matches {n m : Nat} {s t s' : State} (h : s.Matches t)
    {ls ls' texts : List (List Char)} (hl : ls'.map trim = ls.map trim)
    (hp : passLines n s ls = .ok (texts, s')) :
    ∃ t', passLines m t ls' = .ok (texts, t') ∧ s'.Matches t' := by
  induction ls generalizing n m s t ls' texts with
  | nil =>
    obtain rfl := List.map_eq_nil_iff.1 hl
    obtain ⟨rfl, rfl⟩ := Prod.mk.inj (Except.ok.inj hp)
    exact ⟨t, rfl, h⟩
  | cons l ls ih =>
    obtain ⟨l', ls', rfl, hfirst, hrest⟩ := List.map_eq_cons_iff.1 hl
    simp only [passLines, bind_eq_ok, pure_eq_ok, Prod.mk.injEq] at hp
    obtain ⟨⟨text, mid⟩, hline, ⟨rest, last⟩, hlines, rfl, rfl⟩ := hp
    obtain ⟨mid', hline', hmid⟩ := passLine_matches (m := m) h hfirst hline
    obtain ⟨t', hlines', hlast⟩ := ih (m := m + 1) hmid hrest hlines
    refine ⟨t', ?_, hlast⟩
    simp only [passLines, hline', ok_bind, hlines']
    rfl

/-! ### Runs over some lines and then others -/

theorem passLines_append {n : Nat} {s last : State} {ls ms texts : List (List Char)} :
    passLines n s (ls ++ ms) = .ok (texts, last)
      ↔ ∃ first mid second, passLines n s ls = .ok (first, mid)
        ∧ passLines (n + ls.length) mid ms = .ok (second, last) ∧ texts = first ++ second := by
  induction ls generalizing n s texts with
  | nil =>
    constructor
    · exact fun h => ⟨[], s, texts, rfl, h, rfl⟩
    · rintro ⟨_, _, _, hfirst, hsecond, rfl⟩
      obtain ⟨rfl, rfl⟩ := Prod.mk.inj (Except.ok.inj hfirst)
      exact hsecond
  | cons l ls ih =>
    simp only [List.cons_append, passLines, bind_eq_ok, pure_eq_ok, Prod.mk.injEq,
      List.length_cons]
    constructor
    · rintro ⟨⟨text, mid⟩, hline, ⟨rest, _⟩, hlines, rfl, rfl⟩
      obtain ⟨first, mid', second, hfirst, hsecond, rfl⟩ := ih.1 hlines
      refine ⟨text :: first, mid', second, ⟨_, hline, _, hfirst, rfl, rfl⟩, ?_, rfl⟩
      rwa [Nat.add_right_comm, Nat.add_assoc] at hsecond
    · rintro ⟨_, mid', second, ⟨⟨text, mid⟩, hline, ⟨rest, _⟩, hrest, rfl, rfl⟩, hsecond, rfl⟩
      rw [← Nat.add_assoc, Nat.add_right_comm] at hsecond
      exact ⟨_, hline, _, ih.2 ⟨rest, _, second, hrest, hsecond, rfl⟩, rfl, rfl⟩

theorem passLine_nil (n : Nat) (s : State) : passLine n s [] = .ok ([], s) := by
  simp [passLine, indent, pure, Except.pure]

/-- Empty lines stay empty and leave everything as it was. -/
theorem passLines_empty {ls : List (List Char)} (h : ∀ l ∈ ls, l.isEmpty = true) (n : Nat)
    (s : State) : passLines n s ls = .ok (ls, s) := by
  induction ls generalizing n with
  | nil => rfl
  | cons l ls ih =>
    obtain ⟨hl, hls⟩ := List.forall_mem_cons.1 h
    obtain rfl := List.isEmpty_iff.1 hl
    simp only [passLines, passLine_nil, ok_bind, ih hls]
    rfl

/-! ### Lines behind their tabs -/

/-- Before the first bracket is opened a line has no tab. -/
theorem passLine_start {n : Nat} {s' : State} {line text : List Char}
    (h : passLine n .start line = .ok (text, s')) : text = trim line := by
  obtain ⟨rest, outer, last, _, houter, _, rfl, _⟩ := passLine_eq_ok.1 h
  have hempty : outer = ⟨[], [], 0⟩ := by
    cases hlead : (trim line).takeWhile isCloser with
    | nil =>
      rw [hlead] at houter
      exact (pure_eq_ok.1 houter).symm
    | cons c r =>
      -- a closer in front of everything closes nothing
      rw [hlead, List.foldlM_cons] at houter
      exact absurd houter nofun
  subst hempty
  rw [indent]
  split
  · rename_i hnil
    exact (List.isEmpty_iff.1 hnil).symm
  · rfl

theorem trim_indent (k : Nat) {t : List Char} (h : Trimmed t) : trim (indent k t) = t := by
  rw [indent]
  split
  · rename_i hnil
    rw [List.isEmpty_iff.1 hnil]
    rfl
  · have htabs : ∀ c ∈ List.replicate k '\t', isBlank c = true := fun c hc => by
      rw [List.eq_of_mem_replicate hc]
      decide
    rw [trim, trimStart, List.dropWhile_append_of_pos htabs]
    exact h.trim_eq

theorem getLast?_indent (k : Nat) (t : List Char) : (indent k t).getLast? = t.getLast? := by
  rw [indent]
  split
  · rename_i hnil
    rw [List.isEmpty_iff.1 hnil]
  · rename_i hne
    exact List.getLast?_append_of_ne_nil _ (by simpa using hne)

theorem newline_notMem_indent {k : Nat} {t : List Char} (h : '\n' ∉ t) : '\n' ∉ indent k t := by
  rw [indent]
  split
  · exact List.not_mem_nil
  · rw [List.mem_append, not_or]
    exact ⟨fun hc => absurd (List.eq_of_mem_replicate hc) (by decide), h⟩

theorem isEmpty_indent (k : Nat) (t : List Char) : (indent k t).isEmpty = t.isEmpty := by
  cases t with
  | nil => rfl
  | cons c r => simp [indent]

/-- What the pass makes of some lines are the lines, trimmed, behind certain numbers of tabs. -/
theorem exists_tabs {n : Nat} {s s' : State} {ls texts : List (List Char)}
    (h : passLines n s ls = .ok (texts, s')) :
    ∃ ks : List Nat, ks.length = ls.length ∧ texts = List.zipWith indent ks (ls.map trim) := by
  induction ls generalizing n s s' texts with
  | nil =>
    obtain ⟨rfl, _⟩ := Prod.mk.inj (Except.ok.inj h)
    exact ⟨[], rfl, rfl⟩
  | cons l ls ih =>
    simp only [passLines, bind_eq_ok, pure_eq_ok, Prod.mk.injEq] at h
    obtain ⟨⟨text, mid⟩, hline, ⟨rest, _⟩, hlines, rfl, _⟩ := h
    obtain ⟨_, _, _, _, _, _, rfl, _⟩ := passLine_eq_ok.1 hline
    obtain ⟨ks, hks, rfl⟩ := ih hlines
    exact ⟨_ :: ks, by rw [List.length_cons, hks, List.length_cons], rfl⟩

section Tabs

variable {ks : List Nat} {ts : List (List Char)} (hk : ks.length = ts.length)
include hk

theorem map_trim_zipWith (h : ∀ t ∈ ts, Trimmed t) : (List.zipWith indent ks ts).map trim = ts := by
  induction ts generalizing ks with
  | nil => rw [List.zipWith_nil_right, List.map_nil]
  | cons t ts ih =>
    obtain ⟨k, ks, rfl⟩ := List.exists_cons_of_length_eq_add_one hk
    obtain ⟨ht, hts⟩ := List.forall_mem_cons.1 h
    rw [List.zipWith_cons_cons, List.map_cons, trim_indent k ht, ih (Nat.succ.inj hk) hts]

omit hk in
theorem exists_of_mem_zipWith {l : List Char} (h : l ∈ List.zipWith indent ks ts) :
    ∃ k, ∃ t ∈ ts, l = indent k t := by
  induction ts generalizing ks with
  | nil => rw [List.zipWith_nil_right] at h; exact absurd h List.not_mem_nil
  | cons t ts ih =>
    cases ks with
    | nil => exact absurd h List.not_mem_nil
    | cons k ks =>
      rcases List.mem_cons.1 h with rfl | h
      · exact ⟨k, t, List.mem_cons_self, rfl⟩
      · obtain ⟨k, u, hu, rfl⟩ := ih h
        exact ⟨k, u, List.mem_cons_of_mem t hu, rfl⟩

end Tabs

/-! ### Empty lines at the ends -/

section Empty

variable {n : Nat} {s s' : State} {ls : List (List Char)}
  (h : passLines n s ls = .ok (ls, s'))
include h

theorem passLines_dropWhile :
    ∃ m, passLines m s (ls.dropWhile List.isEmpty) = .ok (ls.dropWhile List.isEmpty, s') := by
  have hempty : ∀ l ∈ ls.takeWhile List.isEmpty, l.isEmpty = true := fun _ =>
    List.mem_takeWhile_imp
  have hsplit := List.takeWhile_append_dropWhile (p := List.isEmpty) (l := ls)
  rw [← hsplit] at h
  obtain ⟨first, mid, second, hfirst, hsecond, heq⟩ := passLines_append.1 h
  rw [passLines_empty hempty] at hfirst
  obtain ⟨rfl, rfl⟩ := Prod.mk.inj (Except.ok.inj hfirst)
  rw [← List.append_cancel_left heq] at hsecond
  exact ⟨_, hsecond⟩

theorem passLines_rdropWhile :
    passLines n s (ls.rdropWhile List.isEmpty) = .ok (ls.rdropWhile List.isEmpty, s') := by
  have hempty : ∀ l ∈ ls.rtakeWhile List.isEmpty, l.isEmpty = true := fun _ =>
    List.mem_rtakeWhile_imp
  have hsplit := List.rdropWhile_append_rtakeWhile (p := List.isEmpty) (l := ls)
  rw [← hsplit] at h
  obtain ⟨first, mid, second, hfirst, hsecond, heq⟩ := passLines_append.1 h
  rw [passLines_empty hempty] at hsecond
  obtain ⟨rfl, rfl⟩ := Prod.mk.inj (Except.ok.inj hsecond)
  rwa [← List.append_cancel_right heq] at hfirst

end Empty

section Map

variable {f : List Char → List Char} {ls : List (List Char)}
  (h : ∀ l ∈ ls, (f l).isEmpty = l.isEmpty)
include h

theorem dropWhile_map_of_isEmpty :
    (ls.map f).dropWhile List.isEmpty = (ls.dropWhile List.isEmpty).map f := by
  induction ls with
  | nil => rfl
  | cons l ls ih =>
    obtain ⟨hl, hls⟩ := List.forall_mem_cons.1 h
    cases he : l.isEmpty with
    | true =>
      rw [List.map_cons, List.dropWhile_cons_of_pos (hl.trans he), List.dropWhile_cons_of_pos he,
        ih hls]
    | false =>
      rw [List.map_cons, List.dropWhile_cons_of_neg (by rw [hl, he]; simp),
        List.dropWhile_cons_of_neg (by simp [he]), List.map_cons]

/-- Stripping does not see what keeps the empty lines apart from the others. -/
theorem strip_map : strip (ls.map f) = (strip ls).map f := by
  have hrest : ∀ l ∈ (ls.dropWhile List.isEmpty).reverse, (f l).isEmpty = l.isEmpty := fun l hl =>
    h l ((List.dropWhile_suffix _).subset (List.mem_reverse.1 hl))
  rw [strip, dropWhile_map_of_isEmpty h, List.rdropWhile, ← List.map_reverse,
    dropWhile_map_of_isEmpty hrest, ← List.map_reverse]
  rfl

end Map

/-! ### Laid-out texts -/

theorem format_eq_ok {raw out : List Char} :
    format raw = .ok out ↔ ∃ texts s, passLines 1 .start (rows raw) = .ok (texts, s)
      ∧ s.stack = [] ∧ trim (join texts) = out := by
  rw [format]
  cases passLines 1 .start (rows raw) with
  | error e =>
    refine iff_of_false (fun h => by cases h) ?_
    rintro ⟨_, _, h, _⟩
    cases h
  | ok p =>
    obtain ⟨texts, stack, groups, chained⟩ := p
    cases stack with
    | nil =>
      constructor
      · exact fun h => ⟨texts, _, rfl, rfl, pure_eq_ok.1 h⟩
      · rintro ⟨_, _, he, _, rfl⟩
        rw [(Prod.mk.inj (Except.ok.inj he)).1]
        rfl
    | cons o r =>
      refine iff_of_false (fun h => by cases h) ?_
      rintro ⟨_, _, he, hs, _⟩
      rw [← (Prod.mk.inj (Except.ok.inj he)).2] at hs
      exact absurd hs (List.cons_ne_nil o r)

theorem trimmed_rows (raw : List Char) : ∀ t ∈ (rows raw).map trim, Trimmed t := by
  intro t ht
  obtain ⟨l, _, rfl⟩ := List.mem_map.1 ht
  exact trimmed_trim l

theorem newline_notMem_trim {l : List Char} (h : '\n' ∉ l) : '\n' ∉ trim l := by
  have hend : trimEnd (trimStart l) ⊆ trimStart l := fun c hc => by
    obtain ⟨blanks, hs⟩ := trimEnd_append (trimStart l)
    rw [hs]
    exact List.mem_append_left _ hc
  exact fun hc => h ((List.dropWhile_suffix _).subset (hend hc))

/-- **A laid-out text** is made of the lines behind their tabs, without the empty ones at the
ends. -/
theorem rows_of_format {raw : List Char} {texts : List (List Char)} {s : State}
    (h : passLines 1 .start (rows raw) = .ok (texts, s)) :
    trim (join texts) = join (strip texts) ∧ rows (join (strip texts)) = strip texts := by
  obtain ⟨ks, hks, rfl⟩ := exists_tabs h
  have hlen : ks.length = ((rows raw).map trim).length := by rw [hks, List.length_map]
  obtain ⟨s', hself, _⟩ := passLines_matches (m := 1) State.Matches.rfl
    (map_trim_zipWith hlen (trimmed_rows raw)) h
  refine ⟨trim_join ?first ?last, rows_join ?lines ?nonempty⟩
  case first =>
    obtain ⟨m, hdrop⟩ := passLines_dropWhile hself
    intro l hl
    obtain ⟨rest, hrest⟩ := List.head?_eq_some_iff.1 hl
    rw [hrest] at hdrop
    simp only [passLines, bind_eq_ok, pure_eq_ok, Prod.mk.injEq, List.cons.injEq] at hdrop
    obtain ⟨⟨text, mid⟩, hline, _, _, ⟨rfl, _⟩, _⟩ := hdrop
    rw [passLine_start hline]
    exact (trimmed_trim _).head
  case last =>
    intro l hl
    obtain ⟨k, t, ht, rfl⟩ := exists_of_mem_zipWith hl
    rw [getLast?_indent]
    exact (trimmed_rows raw t ht).last
  case lines =>
    intro l hl
    obtain ⟨k, t, ht, rfl⟩ := exists_of_mem_zipWith
      ((List.dropWhile_suffix _).subset ((List.rdropWhile_prefix _ _).subset hl))
    obtain ⟨r, hr, rfl⟩ := List.mem_map.1 ht
    exact newline_notMem_indent (newline_notMem_trim (newline_notMem_rows r hr))
  case nonempty =>
    intro l hl hnil
    have hne := List.ne_nil_of_mem (List.mem_of_mem_getLast? hl)
    rw [List.getLast?_eq_some_getLast hne, Option.mem_some_iff, hnil] at hl
    exact List.rdropWhile_last_not List.isEmpty _ hne (List.isEmpty_iff.2 hl)

/-- **Laying out again changes nothing.** -/
theorem format_again {raw out : List Char} (h : format raw = .ok out) : format out = .ok out := by
  obtain ⟨texts, s, hp, hs, rfl⟩ := format_eq_ok.1 h
  obtain ⟨ks, hks, htexts⟩ := exists_tabs hp
  obtain ⟨hjoin, hrows⟩ := rows_of_format hp
  have hlen : ks.length = ((rows raw).map trim).length := by rw [hks, List.length_map]
  have htrim : texts.map trim = (rows raw).map trim := by
    rw [htexts]
    exact map_trim_zipWith hlen (trimmed_rows raw)
  obtain ⟨s', hself, hmatch⟩ := passLines_matches (m := 1) State.Matches.rfl htrim hp
  obtain ⟨m, hdrop⟩ := passLines_dropWhile hself
  obtain ⟨s'', hagain, hmatch'⟩ := passLines_matches (m := 1) State.Matches.rfl
    (Eq.refl ((strip texts).map trim)) (passLines_rdropWhile hdrop)
  have hempty : s''.stack = [] := by
    have hopeners := hmatch.openers.trans hmatch'.openers
    rw [hs] at hopeners
    exact List.map_eq_nil_iff.1 hopeners.symm
  refine format_eq_ok.2 ⟨strip texts, s'', ?_, hempty, ?_⟩
  · rw [hjoin, hrows]
    exact hagain
  · rw [← hjoin, trim_trim]

theorem formatCode_eq_ok {raw out : String} :
    formatCode raw = .ok out ↔ format raw.toList = .ok out.toList := by
  rw [formatCode]
  cases format raw.toList with
  | error e => exact iff_of_false nofun nofun
  | ok text =>
    simp only [Except.ok.injEq]
    exact ⟨fun h => by rw [← h, String.toList_ofList], fun h => by rw [h, String.ofList_toList]⟩

/-- **The layout changes white space only.**  Trimmed, the lines of a laid-out text are those of the
text without the blank ones at its start and end; all that is added are tabs in front of lines that
are not blank; and a laid-out text is its own layout. -/
theorem format_adds_tabs {raw out : String} (h : formatCode raw = .ok out) :
    (rows out.toList).map trim = strip ((rows raw.toList).map trim)
      ∧ (∃ ks : List Nat, ks.length = (rows raw.toList).length
        ∧ out.toList = join (strip (List.zipWith indent ks ((rows raw.toList).map trim))))
      ∧ formatCode out = .ok out := by
  rw [formatCode_eq_ok] at h
  obtain ⟨texts, s, hp, _, hout⟩ := format_eq_ok.1 h
  obtain ⟨ks, hks, rfl⟩ := exists_tabs hp
  obtain ⟨hjoin, hrows⟩ := rows_of_format hp
  have hlen : ks.length = ((rows raw.toList).map trim).length := by rw [hks, List.length_map]
  have htrim := map_trim_zipWith hlen (trimmed_rows raw.toList)
  have hempty : ∀ l ∈ List.zipWith indent ks ((rows raw.toList).map trim),
      (trim l).isEmpty = l.isEmpty := by
    intro l hl
    obtain ⟨k, t, ht, rfl⟩ := exists_of_mem_zipWith hl
    rw [trim_indent k (trimmed_rows _ t ht), isEmpty_indent]
  rw [hjoin] at hout
  refine ⟨?_, ⟨ks, hks, hout.symm⟩, formatCode_eq_ok.2 (format_again h)⟩
  rw [← hout, hrows, ← strip_map hempty, htrim]

/-- Blank lines, a carriage return and a no-break space around the lines of a call. -/
theorem format_adds_tabs_blank :
    formatCode "\n  f(\r\n\n\u00a0x,\n ) \n\n" = .ok "f(\n\n\tx,\n)"
      ∧ (rows "f(\n\n\tx,\n)".toList).map trim
        = strip ((rows "\n  f(\r\n\n\u00a0x,\n ) \n\n".toList).map trim)
      ∧ formatCode "f(\n\n\tx,\n)" = .ok "f(\n\n\tx,\n)" := by
  have h : formatCode "\n  f(\r\n\n\u00a0x,\n ) \n\n" = .ok "f(\n\n\tx,\n)" := by decide +kernel
  obtain ⟨hlines, _, hagain⟩ := format_adds_tabs h
  exact ⟨h, hlines, hagain⟩

end QueryScribe.Layout
