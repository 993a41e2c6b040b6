import QueryScribe.Proofs.Code.Standing

/-!
# Code one tab further to the right

`laid_succ` says what one more tab in front of a call does to the rest of it: every later line
gets one more tab too (`shift`), and nothing else changes.  No line break comes from a word or
a string, so each one is followed by the tabs of its line.  The lines of a shifted text are
those of the text behind a tab, but for the first (`intercalate_hung`, `intercalate_tabbed`).
-/

namespace QueryScribe

open QueryScribe.Text

namespace Layout

/-! ### Shifted texts -/

/-- The text with one more tab at the beginning of every line but the first. -/
def shift (t : List Char) : List Char := t.flatMap fun c => if c = '\n' then ['\n', '\t'] else [c]

/-- The lines of a text, each behind one more tab. -/
def tabbed (t : List Char) : List (List Char) := (lines t).map ('\t' :: ·)

/-- The lines of a text, each but the first behind one more tab. -/
def hung (t : List Char) : List (List Char) :=
  match lines t with
  | [] => []
  | l :: ls => l :: ls.map ('\t' :: ·)

def ofLines (ls : List (List Char)) : String := String.ofList (['\n'].intercalate ls)

example : hung "f(\n\tx,\n)".toList = ["f(".toList, "\t\tx,".toList, "\t)".toList] := by decide

theorem shift_append (s t : List Char) : shift (s ++ t) = shift s ++ shift t := List.flatMap_append

theorem shift_newline (t : List Char) : shift ('\n' :: t) = '\n' :: '\t' :: shift t := rfl

theorem shift_of_line {t : List Char} (h : '\n' ∉ t) : shift t = t := by
  induction t with
  | nil => rfl
  | cons c r ih =>
    rw [List.mem_cons, not_or] at h
    have hr := ih h.2
    rw [shift] at hr
    rw [shift, List.flatMap_cons, if_neg (Ne.symm h.1), hr]
    rfl

theorem shift_flatMap {α : Type} (f : α → List Char) (as : List α) :
    shift (as.flatMap f) = as.flatMap fun a => shift (f a) := List.flatMap_assoc

theorem shift_flatten (ts : List (List Char)) : shift ts.flatten = (ts.map shift).flatten := by
  rw [← List.flatMap_id, shift_flatMap, ← List.flatMap_def]
  rfl

theorem shift_intercalate {sep : List Char} (h : '\n' ∉ sep) (ts : List (List Char)) :
    shift (sep.intercalate ts) = sep.intercalate (ts.map shift) := by
  cases ts with
  | nil => rfl
  | cons t ts =>
    rw [intercalate_cons, List.map_cons, intercalate_cons, shift_append, shift_flatMap,
      List.flatMap_map]
    simp only [shift_append, shift_of_line h]

theorem shift_tabs (n : Nat) : shift (tabs n) = tabs n := by
  refine shift_of_line ?_
  intro h
  exact absurd (List.eq_of_mem_replicate h) (by decide)

theorem intercalate_hung (t : List Char) : ['\n'].intercalate (hung t) = shift t := by
  induction t with
  | nil => rfl
  | cons c r ih =>
    obtain ⟨l, ls, hl⟩ := List.exists_cons_of_ne_nil (lines_ne_nil r)
    rw [hung, hl] at ih
    dsimp only at ih
    rw [intercalate_cons] at ih
    by_cases hc : c = '\n'
    · subst hc
      rw [hung, lines_newline, hl, shift_newline, ← ih]
      dsimp only
      rw [intercalate_cons, List.map_cons, List.flatMap_cons]
      rfl
    · have hline : lines (c :: r) = (c :: l) :: ls := by
        rw [lines, if_neg hc, hl]
      have hshift : shift (c :: r) = c :: shift r := by
        rw [shift, List.flatMap_cons, if_neg hc]
        rfl
      rw [hung, hline, hshift, ← ih]
      dsimp only
      rw [intercalate_cons]
      rfl

theorem intercalate_tabbed (t : List Char) :
    ['\n'].intercalate (tabbed t) = '\t' :: shift t := by
  obtain ⟨l, ls, hl⟩ := List.exists_cons_of_ne_nil (lines_ne_nil t)
  rw [← intercalate_hung, tabbed, hung, hl, List.map_cons]
  dsimp only
  rw [intercalate_cons, intercalate_cons]
  rfl

theorem flatMap_ne_nil {α β : Type} {f : α → List β} {as : List α} (hne : as ≠ [])
    (h : ∀ a, f a ≠ []) : as.flatMap f ≠ [] := by
  obtain ⟨a, r, rfl⟩ := List.exists_cons_of_ne_nil hne
  intro hnil
  exact h a (List.flatMap_eq_nil_iff.1 hnil a List.mem_cons_self)

theorem intercalate_flatMap {α : Type} {f : α → List (List Char)} {as : List α} (hne : as ≠ [])
    (h : ∀ a, f a ≠ []) :
    ['\n'].intercalate (as.flatMap f)
      = ['\n'].intercalate (as.map fun a => ['\n'].intercalate (f a)) := by
  induction as with
  | nil => exact absurd rfl hne
  | cons a r ih =>
    by_cases hr : r = []
    · subst hr
      rw [List.flatMap_singleton, List.map_singleton, List.intercalate_singleton]
    · have hmap : r.map (fun a => ['\n'].intercalate (f a)) ≠ [] := by simpa using hr
      have hjoin := intercalate_join (List.cons_ne_nil (['\n'].intercalate (f a)) []) hmap
      rw [List.intercalate_singleton] at hjoin
      rw [List.flatMap_cons, intercalate_join (h a) (flatMap_ne_nil hr h), ih hr]
      exact hjoin.symm

theorem intercalate_between (first last : List Char) {ls : List (List Char)} (hne : ls ≠ []) :
    ['\n'].intercalate (first :: (ls ++ [last]))
      = first ++ '\n' :: (['\n'].intercalate ls ++ '\n' :: last) := by
  have hlast := intercalate_join hne (List.cons_ne_nil last [])
  have hfirst := intercalate_join (List.cons_ne_nil first [])
    (List.append_ne_nil_of_left_ne_nil hne [last])
  rw [List.intercalate_singleton] at hlast hfirst
  rw [← hlast]
  exact hfirst

theorem tabbed_ne_nil (t : List Char) : tabbed t ≠ [] := by
  rw [tabbed, Ne, List.map_eq_nil_iff]
  exact lines_ne_nil t

end Layout

namespace Code

open QueryScribe.Layout

/-! ### Shifted code -/

theorem shift_laidArguments (n : Nat) (items lines : List (List Char)) :
    laidArguments (n + 1) (items.map shift) (lines.map shift)
      = shift (laidArguments n items lines) := by
  have hcomma : '\n' ∉ [',', ' '] := by decide
  rw [laidArguments.eq_def, laidArguments.eq_def, shift_append, shift_intercalate hcomma]
  cases lines with
  | nil => rfl
  | cons l ls =>
    have hitems : (items.map shift).isEmpty = items.isEmpty := List.isEmpty_map
    have hbeside : shift (if items.isEmpty then [] else [','])
        = if items.isEmpty then [] else [','] := shift_of_line (by split <;> decide)
    rw [List.map_cons]
    dsimp only
    rw [← List.map_cons, List.flatMap_map, hitems, shift_append, shift_append, hbeside,
      shift_flatMap, shift_newline, shift_tabs]
    simp only [shift_newline, shift_append, shift_tabs]
    rfl

/-- **One more tab** in front of tame code is one more tab on each of its later lines. -/
theorem laid_succ {p : Packages} (hp : TamePackages p) {c : Code} (h : Tame c) (n : Nat) :
    laid p (n + 1) c = shift (laid p n c) := by
  have all {cs : List Code} (hs : ∀ c ∈ cs, ∀ n, laid p (n + 1) c = shift (laid p n c)) (n : Nat) :
      cs.map (laid p (n + 1)) = (cs.map (laid p n)).map shift := by
    rw [List.map_map]
    exact List.map_congr_left fun c hc => hs c hc n
  induction h generalizing n with
  | word ht => rw [laid, laid, shift_of_line (flat_of_tame ht).line]
  | quoted s => rw [laid, laid, shift_of_line (flat_write s).line]
  | name hi =>
    rw [laid, laid, shift_of_line (flat_of_tame (isTameText_qualified hp _ hi)).line]
  | @group b items ls _ _ ihi ihl =>
    have hopen : '\n' ∉ [b.opener] := by cases b <;> decide
    have hclose : '\n' ∉ [b.closer] := by cases b <;> decide
    have hshift (t : List Char) :
        shift (b.opener :: t ++ [b.closer]) = b.opener :: shift t ++ [b.closer] := by
      rw [← List.singleton_append, shift_append, shift_append, shift_of_line hopen,
        shift_of_line hclose]
      rfl
    rw [laid, laid, hshift, laidAll_eq_map, laidAll_eq_map, laidAll_eq_map, laidAll_eq_map,
      all ihi n, all ihl (n + 1), shift_laidArguments]
  | seq _ ih => rw [laid, laid, laidAll_eq_map, laidAll_eq_map, all ih n, shift_flatten]

/-! ### Calls around other calls -/

/-- **The lines of a call**: those of its arguments, each behind one more tab, the last of each
argument with a comma. -/
theorem laid_callLines {p : Packages} (hp : TamePackages p) {function : String} {args : List Code}
    (hne : args ≠ []) (h : ∀ c ∈ args, Tame c) :
    laid p 0 (callLines function args) = ['\n'].intercalate
      ((qualified p .builder function ++ ['('])
        :: (args.flatMap (fun c => tabbed (laid p 0 c ++ [','])) ++ [[')']])) := by
  have hargs : args.map (laid p 1) ≠ [] := by simpa using hne
  have hlines : (args.map (laid p 1)).map (fun l => tabs 1 ++ (l ++ [',']))
      = args.map fun c => ['\n'].intercalate (tabbed (laid p 0 c ++ [','])) := by
    rw [List.map_map]
    refine List.map_congr_left fun c hc => ?_
    have hcomma : shift [','] = [','] := shift_of_line (by decide)
    rw [intercalate_tabbed, shift_append, hcomma, ← laid_succ hp (h c hc)]
    rfl
  have hflat : args.flatMap (fun c => tabbed (laid p 0 c ++ [','])) ≠ [] :=
    flatMap_ne_nil hne fun c => tabbed_ne_nil _
  rw [intercalate_between _ _ hflat, callLines, laid, laidAll, laidAll, laidAll, laid, laid,
    laidAll, laidAll_eq_map, laidArguments_lines 0 [] hargs, hlines,
    ← intercalate_flatMap hne fun c => tabbed_ne_nil _]
  simp [besideBracket, Bracket.opener, Bracket.closer, tabs]

/-- **The text of a method call with one argument**: the argument, each line but its first behind
one more tab. -/
theorem laid_method {p : Packages} (hp : TamePackages p) (name : String) {c : Code} (h : Tame c) :
    laid p 1 (method name [c])
      = name.toList ++ '(' :: (['\n'].intercalate (hung (laid p 0 c)) ++ [')']) := by
  rw [intercalate_hung, ← laid_succ hp h]
  simp [method, laid, laidAll, laidArguments, Bracket.opener, Bracket.closer]

end Code

end QueryScribe
