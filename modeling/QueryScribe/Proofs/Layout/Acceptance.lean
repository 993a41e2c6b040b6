import QueryScribe.Proofs.Layout.Unclosed

/-!
# Which texts are laid out

A text is laid out exactly if every literal ends on its line and the brackets of all lines are
well nested (`formatCode_ok_iff`).  Otherwise the fault names a line.  Some lines can be completed
to a text that is laid out exactly if the pass gets through them (`completable_iff`): a line with
the closers of all that is open completes them.  So the line that the pass
stops at is the first one with which the lines cannot be completed any more; and if it gets
through all of them, then the innermost bracket that is left open is the last one that no
nested word behind it closes.
-/

namespace QueryScribe.Layout

open QueryScribe.Text QueryScribe.Outcome

/-- Lines of which every literal ends on its line and whose brackets are well nested. -/
def Bracketed (ls : List (List Char)) : Prop :=
  ∃ ws, ls.Forall₂ (fun l w => Lexes (trim l) w) ws ∧ Nested ws.flatten

/-- Lines that others can follow in a text that is laid out. -/
def Completable (ls : List (List Char)) : Prop :=
  ∃ text out : String, ls <+: rows text.toList ∧ formatCode text = .ok out

/-- The line that a message names: the first one with which the lines cannot be completed any more,
or else the line of the innermost bracket that is open at the end. -/
inductive Reported (ls : List (List Char)) (message : List Char) : Prop
  | beyond (k : Nat) : k < ls.length → (∀ j ≤ k, Completable (ls.take j)) →
      ¬ Completable (ls.take (k + 1)) →
      "line ".toList ++ decimal (k + 1) ++ ": ".toList <+: message →
      Reported ls message
  | unclosed {before inner : List Open} {o : Open} : (∀ j, Completable (ls.take j)) →
      words 1 ls = before ++ o :: inner → isOpener o.opener = true →
      Nested (inner.map Open.opener) →
      message = "unclosed ".toList ++ shownBracket o.opener ++ " opened on line ".toList
        ++ decimal o.line → Reported ls message

/-! ### Accepted texts -/

theorem scan_of_passLines {n : Nat} {s s' : State} {ls texts : List (List Char)}
    (h : passLines n s ls = .ok (texts, s')) : ∀ l ∈ ls, scan (trim l) = .ok (word l) := by
  induction ls generalizing n s s' texts with
  | nil => exact fun l hl => absurd hl List.not_mem_nil
  | cons l ls ih =>
    simp only [passLines, bind_eq_ok, pure_eq_ok, Prod.mk.injEq] at h
    obtain ⟨⟨text, mid⟩, hline, ⟨rest, last⟩, hlines, _⟩ := h
    obtain ⟨_, _, _, hscan, _⟩ := passLine_eq_ok.1 hline
    exact List.forall_mem_cons.2 ⟨by rw [word_eq hscan, hscan], ih hlines⟩

/-- **What is laid out.** -/
theorem format_ok_iff {raw : List Char} :
    (∃ out, format raw = .ok out) ↔ Bracketed (rows raw) := by
  constructor
  · rintro ⟨out, h⟩
    obtain ⟨texts, s, hp, hs, _⟩ := format_eq_ok.1 h
    obtain ⟨last, rfl, _, hwords⟩ := words_of_passLines hp
    refine ⟨(rows raw).map word, ?_, ?_⟩
    · rw [List.forall₂_map_right_iff, List.forall₂_same]
      exact fun l hl => lexes_of_scan (scan_of_passLines hp l hl)
    · have hempty : last.stack = [] := hs
      rw [hempty] at hwords
      have := nested_of_foldlM (isBracket_words _) hwords
      rwa [map_opener_words, List.flatMap_def] at this
  · rintro ⟨ws, hws, hn⟩
    have hscan : (rows raw).mapM scan = .ok ws := by
      refine mapM_eq_ok_of_forall₂ (hws.imp fun l w hw => ?_)
      rw [← scan_trim]
      exact hw.scan_eq
    obtain ⟨texts, htexts⟩ : ∃ texts, layLines 1 .start (rows raw) = .ok texts :=
      layLines_of_nest 1 hscan (hn.foldlM_nest [])
    exact ⟨_, by rw [format_eq_rows, htexts]; rfl⟩

theorem formatCode_ok_iff {raw : String} :
    (∃ out, formatCode raw = .ok out) ↔ Bracketed (rows raw.toList) := by
  rw [← format_ok_iff]
  constructor
  · rintro ⟨out, h⟩
    exact ⟨_, formatCode_eq_ok.1 h⟩
  · rintro ⟨out, h⟩
    exact ⟨String.ofList out, formatCode_eq_ok.2 (by rw [String.toList_ofList]; exact h)⟩

/-! ### Lines that can be completed -/

/-- The closers of all that is open leave nothing open. -/
theorem foldlM_closers_openers (n : Nat) (stack : List Open) :
    (closers (openers stack)).foldlM (bracket n) stack = .ok [] := by
  induction stack with
  | nil => rfl
  | cons o r ih =>
    have hclose : bracket n (o :: r) (closerFor o.opener) = .ok r :=
      bracket_eq_ok.2 (.inr ⟨isCloser_closerFor _, o, rfl, rfl⟩)
    rw [openers, List.map_cons, closers, List.map_cons, List.foldlM_cons, hclose, ok_bind]
    exact ih

/-- A line with given closers.  The comma keeps it from being empty. -/
theorem exists_closing_line (opened : List Char) : ∃ line, line ≠ [] ∧ '\n' ∉ line
    ∧ scan (trim line) = .ok (closers opened) := by
  have hcomma : Passes [','] [] := passes_of_plain fun c hc => by
    rw [List.mem_singleton.1 hc]
    decide
  refine ⟨closers opened ++ [','], List.append_ne_nil_of_right_ne_nil _ (List.cons_ne_nil _ _),
    ?_, ?_⟩
  · rw [List.mem_append, List.mem_singleton, not_or]
    exact ⟨newline_notMem_closers _, by decide⟩
  · rw [scan_trim, ((passes_closers _).append hcomma).scan_eq, List.append_nil]

/-- Lines that the pass gets through, and what they leave open: one more line can close that. -/
theorem bracketed_concat {ls texts : List (List Char)} {s : State} {line : List Char}
    (hp : passLines 1 .start ls = .ok (texts, s))
    (hline : scan (trim line) = .ok (closers (openers s.stack))) : Bracketed (ls ++ [line]) := by
  obtain ⟨last, rfl, _, hwords⟩ := words_of_passLines hp
  have hall : (words 1 (ls ++ [line])).foldlM (meet Open.opener) [] = some [] := by
    rw [words_append, words, words, List.append_nil, word_eq hline]
    exact foldlM_meet_append.2 ⟨_, hwords, foldlM_bracket_iff.1 (foldlM_closers_openers _ _)⟩
  have hnested := nested_of_foldlM (isBracket_words _) hall
  rw [map_opener_words, List.flatMap_def] at hnested
  refine ⟨_, ?_, hnested⟩
  rw [List.forall₂_map_right_iff, List.forall₂_same]
  intro l hl
  rcases List.mem_append.1 hl with hl | hl
  · exact lexes_of_scan (scan_of_passLines hp l hl)
  · rw [List.mem_singleton.1 hl, word_eq hline]
    exact lexes_of_scan hline

/-- **Lines can be completed exactly if the pass gets through them.** -/
theorem completable_iff {ls : List (List Char)} (hn : ∀ l ∈ ls, '\n' ∉ l) :
    Completable ls ↔ ∃ texts s, passLines 1 .start ls = .ok (texts, s) := by
  constructor
  · rintro ⟨text, out, ⟨more, hrows⟩, h⟩
    obtain ⟨texts, s, hp, _⟩ := format_eq_ok.1 (formatCode_eq_ok.1 h)
    rw [← hrows] at hp
    obtain ⟨first, mid, _, hfirst, _⟩ := passLines_append.1 hp
    exact ⟨first, mid, hfirst⟩
  · rintro ⟨texts, s, hp⟩
    obtain ⟨line, hne, hnl, hline⟩ := exists_closing_line (openers s.stack)
    have hrows : rows (String.ofList (join (ls ++ [line]))).toList = ls ++ [line] := by
      rw [String.toList_ofList]
      refine rows_join (fun l hl => ?_) fun l hl => ?_
      · rcases List.mem_append.1 hl with hl | hl
        · exact hn l hl
        · exact List.mem_singleton.1 hl ▸ hnl
      · rw [List.getLast?_concat, Option.mem_some_iff] at hl
        exact hl ▸ hne
    have hbracketed := bracketed_concat hp hline
    rw [← hrows] at hbracketed
    obtain ⟨out, hout⟩ := formatCode_ok_iff.2 hbracketed
    exact ⟨_, out, ⟨[line], hrows.symm⟩, hout⟩

/-- The first of some lines can be completed if the pass gets through them all. -/
theorem completable_take {ls texts : List (List Char)} {s : State} (hn : ∀ l ∈ ls, '\n' ∉ l)
    (hp : passLines 1 .start ls = .ok (texts, s)) (j : Nat) : Completable (ls.take j) := by
  rw [← List.take_append_drop j ls] at hp
  obtain ⟨first, mid, _, hfirst, _⟩ := passLines_append.1 hp
  exact (completable_iff fun l hl => hn l (List.mem_of_mem_take hl)).2 ⟨first, mid, hfirst⟩

/-! ### The line that the pass stops at -/

inductive Fault.OnLine (n : Nat) : Fault → Prop
  | openLiteral (literal : OpenLiteral) : OnLine n (.openLiteral n literal)
  | unexpected (closer : Char) : OnLine n (.unexpected n closer)
  | mismatch (closer opener : Char) (openedOn : Nat) : OnLine n (.mismatch n closer opener openedOn)

/-- The message of such a fault begins with the number of the line. -/
theorem Fault.OnLine.exists_render {n : Nat} {e : Fault} (h : e.OnLine n) :
    ∃ what, e.render = "line ".toList ++ decimal n ++ ": ".toList ++ what := by
  rw [Fault.render.eq_def]
  have hquoted : ": unterminated literal".toList
      = ": ".toList ++ "unterminated literal".toList := by decide
  have hraw : ": unterminated raw string".toList
      = ": ".toList ++ "unterminated raw string".toList := by decide
  have hunexpected : ": unexpected ".toList = ": ".toList ++ "unexpected ".toList := by decide
  cases h with
  | openLiteral literal =>
    cases literal with
    | quoted =>
      dsimp only
      rw [hquoted, ← List.append_assoc]
      exact ⟨_, rfl⟩
    | raw =>
      dsimp only
      rw [hraw, ← List.append_assoc]
      exact ⟨_, rfl⟩
  | unexpected closer =>
    dsimp only
    rw [hunexpected, ← List.append_assoc, List.append_assoc _ _ (shownBracket closer)]
    exact ⟨_, rfl⟩
  | mismatch closer opener openedOn =>
    simp only [List.append_assoc]
    exact ⟨_, rfl⟩

theorem onLine_of_bracket {n : Nat} {c : Char} {stack : List Open} {e : Fault}
    (h : bracket n stack c = .error e) : e.OnLine n := by
  unfold bracket at h
  split at h
  · split at h
    · exact Except.error.inj h ▸ .unexpected c
    · split at h
      · exact absurd h nofun
      · exact Except.error.inj h ▸ .mismatch _ _ _
  · exact absurd h nofun

theorem onLine_of_foldlM {n : Nat} {w : List Char} {stack : List Open} {e : Fault}
    (h : w.foldlM (bracket n) stack = .error e) : e.OnLine n := by
  induction w generalizing stack with
  | nil => exact absurd h nofun
  | cons c w ih =>
    rw [List.foldlM_cons] at h
    cases hc : bracket n stack c with
    | error e' =>
      rw [hc] at h
      exact Except.error.inj h ▸ onLine_of_bracket hc
    | ok mid =>
      rw [hc] at h
      exact ih h

theorem onLine_of_layLine {n : Nat} {ctx : Context} {line : List Char} {e : Fault}
    (h : layLine n ctx line = .error e) : e.OnLine n := by
  rw [layLine] at h
  dsimp only at h
  cases hs : scan (trim line) with
  | error literal =>
    rw [hs] at h
    exact Except.error.inj h ▸ .openLiteral literal
  | ok w =>
    rw [hs, mapError_ok, ok_bind] at h
    cases hlead : ((trim line).takeWhile isCloser).foldlM (bracket n) ctx.stack with
    | error e' =>
      rw [hlead] at h
      exact Except.error.inj h ▸ onLine_of_foldlM hlead
    | ok outer =>
      rw [hlead, ok_bind] at h
      cases hrest : (w.drop ((trim line).takeWhile isCloser).length).foldlM (bracket n) outer with
      | error e' =>
        rw [hrest] at h
        exact Except.error.inj h ▸ onLine_of_foldlM hrest
      | ok stack =>
        rw [hrest] at h
        cases h

/-- The counts of a line never fail: what is found on it is found without them. -/
theorem onLine_of_passLine {n : Nat} {ctx : Context} {line : List Char} {e : Fault}
    (h : Older n ctx.stack) (hl : passLine n ctx.tally line = .error e) : e.OnLine n := by
  rw [passLine_tally h] at hl
  cases hlay : layLine n ctx line with
  | ok p => rw [hlay] at hl; exact absurd hl nofun
  | error e' =>
    rw [hlay] at hl
    exact Except.error.inj hl ▸ onLine_of_layLine hlay

/-- A run that stops does so at a line, after it got through those before. -/
theorem exists_line_of_error {n : Nat} {s : State} {ls : List (List Char)} {e : Fault}
    (h : passLines n s ls = .error e) : ∃ before l after texts mid, ls = before ++ l :: after
      ∧ passLines n s before = .ok (texts, mid)
      ∧ passLine (n + before.length) mid l = .error e := by
  induction ls generalizing n s with
  | nil => exact absurd h nofun
  | cons l ls ih =>
    rw [passLines] at h
    cases hline : passLine n s l with
    | error e' =>
      rw [hline] at h
      exact ⟨[], l, ls, [], s, rfl, rfl, Except.error.inj h ▸ hline⟩
    | ok p =>
      obtain ⟨text, mid⟩ := p
      rw [hline, ok_bind] at h
      dsimp only at h
      cases hlines : passLines (n + 1) mid ls with
      | error e' =>
        rw [hlines] at h
        obtain rfl := Except.error.inj h
        obtain ⟨before, m, after, texts, last, rfl, hbefore, hm⟩ := ih hlines
        refine ⟨l :: before, m, after, text :: texts, last, rfl, ?_, ?_⟩
        · rw [passLines, hline, ok_bind]
          dsimp only
          rw [hbefore]
          rfl
        · rw [List.length_cons, Nat.add_comm before.length, ← Nat.add_assoc]
          exact hm
      | ok q =>
        rw [hlines] at h
        cases h

/-! ### The line that is reported -/

/-- The lines before the one that the pass stops at can be completed, and with it they cannot. -/
theorem reported_of_line {before after texts : List (List Char)} {l : List Char} {s : State}
    {e : Fault} (hn : ∀ m ∈ before ++ l :: after, '\n' ∉ m)
    (hbefore : passLines 1 .start before = .ok (texts, s))
    (hl : passLine (1 + before.length) s l = .error e) :
    Reported (before ++ l :: after) e.render := by
  have hsplit : before ++ l :: after = (before ++ [l]) ++ after := by
    rw [List.append_assoc, List.singleton_append]
  have hnewline : ∀ m ∈ before ++ [l], '\n' ∉ m := fun m hm =>
    hn m (hsplit ▸ List.mem_append_left after hm)
  refine .beyond before.length ?_ (fun j hj => ?_) ?_ ?_
  · rw [List.length_append, List.length_cons]
    omega
  · rw [List.take_append_of_le_length hj]
    exact completable_take (fun m hm => hnewline m (List.mem_append_left _ hm)) hbefore j
  · have htake : (before ++ l :: after).take (before.length + 1) = before ++ [l] := by
      rw [hsplit]
      exact List.take_left' (by rw [List.length_append, List.length_singleton])
    rw [htake, completable_iff hnewline]
    rintro ⟨_, last, hrun⟩
    obtain ⟨first, mid, _, hfirst, hmore, _⟩ := passLines_append.1 hrun
    obtain ⟨_, rfl⟩ := Prod.mk.inj (Except.ok.inj (hbefore.symm.trans hfirst))
    rw [passLines, hl] at hmore
    cases hmore
  · obtain ⟨ctx, rfl, hold, _⟩ := words_of_passLines hbefore
    obtain ⟨what, hwhat⟩ := (onLine_of_passLine hold hl).exists_render
    rw [hwhat, Nat.add_comm 1]
    exact List.prefix_append _ _

/-- If the pass gets through all lines, the innermost open bracket is the last that no nested word
behind it closes. -/
theorem reported_of_open {ls texts : List (List Char)} {s : State} {o : Open} {r : List Open}
    (hn : ∀ l ∈ ls, '\n' ∉ l) (hp : passLines 1 .start ls = .ok (texts, s))
    (hs : s.stack = o :: r) :
    Reported ls (Fault.unclosed o.opener o.line).render := by
  obtain ⟨last, rfl, _, hwords⟩ := words_of_passLines hp
  have hlast : last.stack = o :: r := hs
  rw [hlast] at hwords
  have hleaves := leaves_of_foldlM (isBracket_words ls) hwords
  generalize hw : words 1 ls = w at hleaves
  cases hleaves with
  | opener _ ho hinner =>
    exact .unclosed (completable_take hn hp) hw ho hinner (by rw [Fault.render.eq_def])

theorem reported_of_error {raw : List Char} {e : Fault} (h : format raw = .error e) :
    Reported (rows raw) e.render := by
  rw [format] at h
  cases hp : passLines 1 .start (rows raw) with
  | error e' =>
    rw [hp] at h
    obtain rfl := Except.error.inj h
    obtain ⟨before, l, after, texts, s, hrows, hbefore, hl⟩ := exists_line_of_error hp
    have hn := newline_notMem_rows (t := raw)
    rw [hrows] at hn ⊢
    exact reported_of_line hn hbefore hl
  | ok p =>
    obtain ⟨texts, s⟩ := p
    rw [hp, ok_bind] at h
    dsimp only at h
    split at h
    · cases h
    · rename_i o r hs
      obtain rfl := Except.error.inj h
      exact reported_of_open newline_notMem_rows hp hs

/-- **Exactly the bracketed texts are laid out.**  Any other is refused as it is, and the message
names the first line with which the lines cannot be completed any more, or else the line of the
innermost bracket that is open at the end. -/
theorem formatted_iff_bracketed (raw : String) :
    ((∃ out, formatCode raw = .ok out) ↔ Bracketed (rows raw.toList))
      ∧ (¬ Bracketed (rows raw.toList) → ∃ fault, formatCode raw = .error (.formatting fault raw)
        ∧ Reported (rows raw.toList) fault.message.toList) := by
  refine ⟨formatCode_ok_iff, fun hnot => ?_⟩
  rw [← formatCode_ok_iff] at hnot
  cases h : format raw.toList with
  | ok text =>
    have hout := formatCode_eq_ok.2 (h.trans (congrArg _ String.toList_ofList.symm))
    exact absurd ⟨String.ofList text, hout⟩ hnot
  | error fault =>
    refine ⟨fault, by rw [formatCode, h], ?_⟩
    rw [Fault.message, String.toList_ofList]
    exact reported_of_error h

/-- A bracket that is closed by one of another kind on the next line. -/
theorem formatted_iff_bracketed_crossed :
    ¬ Bracketed (rows "f(\n]".toList)
      ∧ ∃ fault, formatCode "f(\n]" = .error (.formatting fault "f(\n]")
        ∧ Reported (rows "f(\n]".toList) fault.message.toList := by
  have h : formatCode "f(\n]" = .error (.formatting (.mismatch 2 ']' '(' 1) "f(\n]") := by decide
  have hnot : ¬ Bracketed (rows "f(\n]".toList) := fun hb => by
    obtain ⟨out, hout⟩ := (formatted_iff_bracketed "f(\n]").1.2 hb
    exact absurd (h.symm.trans hout) nofun
  exact ⟨hnot, (formatted_iff_bracketed "f(\n]").2 hnot⟩

end QueryScribe.Layout
