import QueryScribe.Proofs.Code.Tame
import QueryScribe.Proofs.Layout.Blocks

/-!
# Standing code

A call is standing when nothing stands behind the arguments that have lines of their own:
they are the last thing between its innermost brackets, and every other argument is
inline.  Such a call is one line, or it hangs: its first line opens some brackets, and its
last line closes just these.  `Code.laid` writes out the tabs that the layout gives to a call
behind a number of tabs, and `settled_render` says that the layout pass turns the one
into the other, wherever the call stands.
-/

namespace QueryScribe.Code

open QueryScribe.Text QueryScribe.Layout

/-! ### Code with its tabs -/

/-- What stands between brackets behind a number of tabs, from the arguments with their tabs. -/
def laidArguments (n : Nat) (items lines : List (List Char)) : List Char :=
  [',', ' '].intercalate items
    ++ match lines with
      | [] => []
      | _ => (if items.isEmpty then [] else [','])
        ++ lines.flatMap (fun l => '\n' :: (tabs (n + 1) ++ (l ++ [',']))) ++ '\n' :: tabs n

mutual
/-- The text of a piece of code that begins behind a number of tabs, with the tabs of its lines. -/
def laid (p : Packages) (n : Nat) : Code → List Char
  | .word text => text.toList
  | .quoted s => StringLiteral.write s
  | .name package ident => qualified p package ident
  | .group bracket items lines =>
    bracket.opener :: laidArguments n (laidAll p n items) (laidAll p (n + 1) lines)
      ++ [bracket.closer]
  | .seq parts => (laidAll p n parts).flatten
def laidAll (p : Packages) (n : Nat) : List Code → List (List Char)
  | [] => []
  | c :: r => laid p n c :: laidAll p n r
end

theorem laidAll_eq_map (p : Packages) (n : Nat) (cs : List Code) :
    laidAll p n cs = cs.map (laid p n) := by
  induction cs with
  | nil => simp [laidAll]
  | cons c r ih => simp [laidAll, ih]

theorem Inline.laid_eq {c : Code} (h : Inline c) (p : Packages) (n : Nat) :
    laid p n c = render p c := by
  induction h with
  | word | quoted | name => rw [laid, render]
  | group _ ih =>
    rw [laid, render, laidAll_eq_map, renderAll_eq_map, List.map_congr_left ih]
    rfl
  | seq _ ih => rw [laid, render, laidAll_eq_map, renderAll_eq_map, List.map_congr_left ih]

/-! ### Standing calls -/

/-- A name of letters and digits. -/
def isHead (t : List Char) : Bool := !t.isEmpty && t.all Char.isAlphanum

/-- What a call begins with. -/
inductive Head : Code → Prop
  | word {t : String} : isHead t.toList = true → Head (.word t)
  | name {package : Package} {ident : String} : isHead ident.toList = true →
      Head (.name package ident)

/-- Calls of which no argument stands behind one that has lines. -/
inductive Standing : Code → Prop
  | lines {head : Code} {b : Bracket} {items ls : List Code} : Head head →
      (∀ c ∈ items, Inline c) → (∀ c ∈ ls, Standing c) → Standing (.seq [head, .group b items ls])
  | last {head c : Code} {b : Bracket} {items : List Code} : Head head →
      (∀ c ∈ items, Inline c) → Standing c → Standing (.seq [head, .group b (items ++ [c]) []])

theorem isTameText_of_isHead {t : List Char} (h : isHead t = true) : isTameText t = true := by
  rw [isHead, Bool.and_eq_true] at h
  exact isTameText_of_forall fun c hc => isTame_of_class (by decide) (List.all_eq_true.1 h.2 c hc)

theorem Head.inline {c : Code} (h : Head c) : Inline c := by
  cases h with
  | word ht => exact .word (isTameText_of_isHead ht)
  | name hi => exact .name (isTameText_of_isHead hi)

theorem Standing.tame {c : Code} (h : Standing c) : Tame c := by
  have call {head g : Code} (hh : Head head) (hg : Tame g) : Tame (.seq [head, g]) := by
    refine .seq fun c hc => ?_
    simp only [List.mem_cons, List.not_mem_nil, or_false] at hc
    rcases hc with rfl | rfl
    · exact hh.inline.tame
    · exact hg
  induction h with
  | lines hh hi _ ih => exact call hh (.group (fun c hc => (hi c hc).tame) ih)
  | last hh hi _ ih =>
    refine call hh (.group (fun c hc => ?_) fun c hc => absurd hc List.not_mem_nil)
    rcases List.mem_append.1 hc with hc | hc
    · exact (hi c hc).tame
    · rwa [List.mem_singleton.1 hc]

theorem standing_none : ∀ c ∈ ([] : List Code), Standing c := fun _ h => absurd h List.not_mem_nil

theorem standing_call {function : String} {args : List Code} (hf : isHead function.toList = true)
    (h : ∀ c ∈ args, Inline c) : Standing (call function args) :=
  .lines (.name hf) h standing_none

theorem standing_callLines {function : String} {args : List Code}
    (hf : isHead function.toList = true) (h : ∀ c ∈ args, Standing c) :
    Standing (callLines function args) := .lines (.name hf) inline_none h

theorem standing_method {name : String} {args : List Code} (hf : isHead name.toList = true)
    (h : ∀ c ∈ args, Inline c) : Standing (method name args) := .lines (.word hf) h standing_none

theorem standing_methodOf {name : String} {arg : Code} (hf : isHead name.toList = true)
    (h : Standing arg) : Standing (method name [arg]) := .last (.word hf) inline_none h

/-! ### Standing calls are settled texts -/

/-- Package names that are tame and do not begin with a blank. -/
structure FirmPackages (p : Packages) : Prop where
  tame : TamePackages p
  begins : ∀ package, (packageName p package).toList ≠ [] → Begins (packageName p package).toList

/-- A class of characters without blanks and without marks of the layout. -/
theorem begins_of_class {q : Char → Bool} (hblank : blanks.chars.all (fun d => !q d) = true)
    (hmark : marks.all (fun d => !q d) = true) {c : Char} (r : List Char) (h : q c = true) :
    Begins (c :: r) := by
  refine ⟨c, r, rfl, isBlank_of_class hblank h, ?_⟩
  have hplain : isPlain c = true := isPlain_of_class hmark h
  cases hc : isCloser c with
  | false => rfl
  | true =>
    simp only [isCloser, Bool.or_eq_true, decide_eq_true_eq] at hc
    rcases hc with (rfl | rfl) | rfl <;> exact absurd hplain (by decide)

theorem begins_of_isHead {t : List Char} (h : isHead t = true) : Begins t := by
  cases t with
  | nil => exact absurd h nofun
  | cons c r =>
    rw [isHead, List.all_cons, Bool.and_eq_true, Bool.and_eq_true] at h
    exact begins_of_class (by decide) (by decide) r h.2.1

theorem Head.begins {p : Packages} (hp : FirmPackages p) {c : Code} (h : Head c) :
    Begins (render p c) := by
  cases h with
  | word ht => rw [render]; exact begins_of_isHead ht
  | @name package ident hi =>
    rw [render, qualified]
    split
    · exact begins_of_isHead hi
    · rename_i hq
      exact (hp.begins package (by simpa using hq)).append _

/-- What stands on the line of the bracket when other arguments have lines of their own. -/
def besideBracket (items : List (List Char)) : List Char :=
  [',', ' '].intercalate items ++ if items.isEmpty then [] else [',']

theorem arguments_lines (items : List (List Char)) {ls : List (List Char)} (hne : ls ≠ []) :
    arguments items ls
      = besideBracket items ++ '\n' :: (['\n'].intercalate (ls.map (· ++ [','])) ++ ['\n']) := by
  obtain ⟨l, r, rfl⟩ := List.exists_cons_of_ne_nil hne
  have hlines : (l :: r).flatMap (· ++ [',', '\n'])
      = ['\n'].intercalate ((l :: r).map (· ++ [','])) ++ ['\n'] := by
    induction r generalizing l with
    | nil => simp
    | cons m r ih =>
      rw [List.flatMap_cons, ih m (List.cons_ne_nil m r)]
      simp [List.intercalate_cons_cons]
  have hargs : arguments items (l :: r) = [',', ' '].intercalate items
      ++ ((if items.isEmpty then ['\n'] else [',', '\n']) ++ (l :: r).flatMap (· ++ [',', '\n'])) :=
    rfl
  rw [hargs, hlines, besideBracket]
  cases items <;> simp

theorem laidArguments_lines (n : Nat) (items : List (List Char)) {ls : List (List Char)}
    (hne : ls ≠ []) : laidArguments n items ls = besideBracket items ++ '\n' ::
      (['\n'].intercalate (ls.map fun l => tabs (n + 1) ++ (l ++ [','])) ++ '\n' :: tabs n) := by
  obtain ⟨l, r, rfl⟩ := List.exists_cons_of_ne_nil hne
  have hargs : laidArguments n items (l :: r) = [',', ' '].intercalate items
      ++ ((if items.isEmpty then [] else [','])
        ++ (l :: r).flatMap (fun l => '\n' :: (tabs (n + 1) ++ (l ++ [',']))) ++ '\n' :: tabs n) :=
    rfl
  rw [List.map_cons, intercalate_cons, List.flatMap_map, hargs, besideBracket]
  simp

theorem closers_opener (b : Bracket) : closers [b.opener] = [b.closer] := by cases b <;> rfl

def opening (p : Packages) (head : Code) (b : Bracket) : List Char := render p head ++ [b.opener]

theorem render_call (p : Packages) (head : Code) (b : Bracket) (items ls : List Code) :
    render p (.seq [head, .group b items ls]) = opening p head b
      ++ (arguments (items.map (render p)) (ls.map (render p)) ++ closers [b.opener]) := by
  simp [render, renderAll, renderAll_eq_map, opening, closers_opener]

theorem ends_call (p : Packages) (head : Code) (b : Bracket) (items ls : List Code) :
    Ends (render p (.seq [head, .group b items ls])) := by
  rw [render_call]
  exact ((ends_closers (List.cons_ne_nil _ _)).prepend _).prepend _

theorem laid_call (p : Packages) (n : Nat) {head : Code} (hh : Head head) (b : Bracket)
    {items : List Code} (hi : ∀ c ∈ items, Inline c) (rest ls : List Code) :
    laid p n (.seq [head, .group b (items ++ rest) ls]) = opening p head b
      ++ (laidArguments n (items.map (render p) ++ rest.map (laid p n)) (ls.map (laid p (n + 1)))
        ++ closers [b.opener]) := by
  have hitems : items.map (laid p n) = items.map (render p) :=
    List.map_congr_left fun c hc => (hi c hc).laid_eq p n
  simp [laid, laidAll, laidAll_eq_map, hitems, hh.inline.laid_eq, opening, closers_opener]

section Render

variable {p : Packages} (hp : FirmPackages p) {head : Code} (hh : Head head) (b : Bracket)
include hp hh

theorem leads_opening : Leads (opening p head b) [b.opener] := by
  have hb : '\n' ∉ [b.opener] := by cases b <;> decide
  have hflat := hh.inline.flat hp.tame
  exact (Leads.mk hflat.line (hh.begins hp) (opens_of_whole hflat.whole)).append hb (opens_opener b)

variable {items : List Code} (hi : ∀ c ∈ items, Inline c)
include hi

omit hh in
theorem flat_items : ∀ t ∈ items.map (render p), Flat t := by
  intro t ht
  obtain ⟨c, hc, rfl⟩ := List.mem_map.1 ht
  exact (hi c hc).flat hp.tame

/-- A call of which no argument has a line of its own stands on one line. -/
theorem leads_inline : Leads (render p (.seq [head, .group b items []])) [] := by
  have hitems : Flat ([',', ' '].intercalate (items.map (render p))) :=
    flat_intercalate (flat_of_tame (by decide)) (flat_items hp hi)
  rw [render_call, List.map_nil, arguments, List.append_nil, ← List.append_assoc]
  exact ((leads_opening hp hh b).flat hitems).close

theorem settled_inline : Settled (render p (.seq [head, .group b items []]))
    (laid p · (.seq [head, .group b items []])) := by
  have hlaid : (laid p · (.seq [head, .group b items []]))
      = fun _ => render p (.seq [head, .group b items []]) :=
    funext fun n => (Inline.seq (.pair hh.inline (.group hi))).laid_eq p n
  rw [hlaid]
  exact .line (leads_inline hp hh b hi) (ends_call p head b items [])

theorem settled_last {c : Code} (h : Settled (render p c) (laid p · c)) :
    Settled (render p (.seq [head, .group b (items ++ [c]) []]))
      (laid p · (.seq [head, .group b (items ++ [c]) []])) := by
  have hitems : Flat ((items.map (render p)).flatMap (· ++ [',', ' '])) := by
    refine flat_flatten fun t ht => ?_
    obtain ⟨u, hu, rfl⟩ := List.mem_map.1 ht
    exact (flat_items hp hi u hu).append (flat_of_tame (by decide))
  have := h.wrap ((leads_opening hp hh b).flat hitems) (List.cons_ne_nil _ _)
  simpa only [render_call, laid_call p _ hh b hi, List.map_append, List.map_singleton, List.map_nil,
    arguments, laidArguments, intercalate_concat, List.append_nil, List.append_assoc] using this

theorem settled_lines {ls : List Code} (hne : ls ≠ [])
    (h : ∀ c ∈ ls, Settled (render p c) (laid p · c)) :
    Settled (render p (.seq [head, .group b items ls]))
      (laid p · (.seq [head, .group b items ls])) := by
  have hitems : Flat (besideBracket (items.map (render p))) := by
    refine (flat_intercalate (flat_of_tame (by decide)) (flat_items hp hi)).append ?_
    split <;> exact flat_of_tame (by decide)
  have hends : Ends (opening p head b ++ besideBracket (items.map (render p))) := by
    cases items with
    | nil =>
      have hopen : Ends [b.opener] := ends_single (by cases b <;> decide)
      simpa [besideBracket, opening] using hopen.prepend (render p head)
    | cons c r => exact ((ends_single (by decide)).prepend _).prepend _
  have hrender : ls.map (render p) ≠ [] := by simpa using hne
  have hlaid (n : Nat) : ls.map (laid p n) ≠ [] := by simpa using hne
  have := Settled.hanging ((leads_opening hp hh b).flat hitems) hends (List.cons_ne_nil _ _)
    (inner_listed hne h)
  have hcall (n : Nat) := laid_call p n hh b hi [] ls
  simp only [List.append_nil, List.map_nil] at hcall
  simpa [render_call, hcall, arguments_lines _ hrender, laidArguments_lines _ _ (hlaid _),
    Function.comp_def] using this

end Render

/-- **A standing call is a settled text**: what the layout makes of it depends on the number of
tabs alone. -/
theorem settled_render {p : Packages} (hp : FirmPackages p) {c : Code} (h : Standing c) :
    Settled (render p c) (laid p · c) := by
  induction h with
  | @lines head b items ls hh hi _ ih =>
    -- without lines the closing bracket stands on the line of the opening one
    by_cases hne : ls = []
    · subst hne
      exact settled_inline hp hh b hi
    · exact settled_lines hp hh b hi hne ih
  | last hh hi _ ih => exact settled_last hp hh _ hi ih

end QueryScribe.Code
