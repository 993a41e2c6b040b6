import QueryScribe.Proofs.Json.Closings
import QueryScribe.Proofs.Json.Fold
import QueryScribe.Query

/-!
# Reading in one pass

The reader makes values while it reads.  What it makes is what `Json.fold` makes of the plain
tree afterwards, and where the fold fails the reader has stopped at the first brace of the text that
ends an object which the assembly refuses, though it takes all that is in the object
(`readWith_cases`).

The plain reader and the other one run side by side.  As long as nothing is refused, each piece that
the plain reader holds folds to the piece that the other one holds in the same place
(`State.Mirrors`), and one character keeps that or is the brace of an object that is
refused (`follows_step`).
-/

namespace QueryScribe.Json

open QueryScribe.Outcome

variable {α : Type} {asm : Assembly α}

/-- An object that the assembly refuses, though it takes all that is in it. -/
def Refused (asm : Assembly α) (members : List (String × Json)) : Prop :=
  ∃ fields, foldMembers asm members = some fields ∧ asm.object fields = none

/-! ### What folds to what -/

def Folds (asm : Assembly α) (j : Json) (v : α) : Prop := j.fold asm = some v

def FoldsMember (asm : Assembly α) (m : String × Json) (f : String × α) : Prop :=
  m.1 = f.1 ∧ m.2.fold asm = some f.2

theorem foldItems_of_forall₂ {js : List Json} {vs : List α} (h : js.Forall₂ (Folds asm) vs) :
    foldItems asm js = some vs := by
  induction h with
  | nil => rfl
  | cons hj _ ih => exact foldItems_cons_eq_some.2 ⟨_, hj, _, ih, rfl⟩

theorem foldMembers_of_forall₂ {ms : List (String × Json)} {fs : List (String × α)}
    (h : ms.Forall₂ (FoldsMember asm) fs) : foldMembers asm ms = some fs := by
  induction h with
  | nil => rfl
  | @cons m f _ _ hm _ ih =>
    obtain ⟨key, j⟩ := m
    obtain ⟨_, v⟩ := f
    obtain ⟨rfl, hj⟩ := hm
    exact foldMembers_cons_eq_some.2 ⟨v, hj, _, ih, rfl⟩

theorem fold_of_mem_items {js : List Json} {vs : List α} (h : foldItems asm js = some vs) {j : Json}
    (hj : j ∈ js) : ∃ v, j.fold asm = some v := by
  induction js generalizing vs with
  | nil => exact absurd hj List.not_mem_nil
  | cons k r ih =>
    obtain ⟨v, hv, rest, hr, _⟩ := foldItems_cons_eq_some.1 h
    rcases List.mem_cons.1 hj with rfl | hj
    · exact ⟨v, hv⟩
    · exact ih hr hj

theorem fold_of_mem_members {ms : List (String × Json)} {fs : List (String × α)}
    (h : foldMembers asm ms = some fs) {key : String} {j : Json} (hj : (key, j) ∈ ms) :
    ∃ v, j.fold asm = some v := by
  induction ms generalizing fs with
  | nil => exact absurd hj List.not_mem_nil
  | cons m r ih =>
    obtain ⟨k, i⟩ := m
    obtain ⟨v, hv, rest, hr, _⟩ := foldMembers_cons_eq_some.1 h
    rcases List.mem_cons.1 hj with heq | hj
    · cases heq
      exact ⟨v, hv⟩
    · exact ih hr hj

theorem At.fold {j k : Json} {path : List Segment} (h : j.At path k) {v : α}
    (hv : j.fold asm = some v) : ∃ w, k.fold asm = some w := by
  induction h generalizing v with
  | here j => exact ⟨v, hv⟩
  | element hi _ ih =>
    obtain ⟨vs, hvs, _⟩ := Option.map_eq_some_iff.1 hv
    obtain ⟨w, hw⟩ := fold_of_mem_items hvs (List.mem_of_getElem? hi)
    exact ih hw
  | member hm _ ih =>
    obtain ⟨fs, hfs, _⟩ := Option.bind_eq_some_iff.1 hv
    obtain ⟨w, hw⟩ := fold_of_mem_members hfs hm
    exact ih hw

theorem Refused.not_folds {members : List (String × Json)} (h : Refused asm members) (v : α) :
    (Json.object members).fold asm ≠ some v := by
  obtain ⟨fields, hfields, hnone⟩ := h
  rw [fold, hfields, Option.bind_some, hnone]
  exact (Option.some_ne_none v).symm

/-! ### Two readers side by side -/

/-- Open containers that hold what the assembly makes of what the others hold. -/
inductive Frame.Mirrors (asm : Assembly α) : Frame Json → Frame α → Prop
  | element {js : List Json} {vs : List α} (h : js.Forall₂ (Folds asm) vs) :
      Mirrors asm (.element js) (.element vs)
  | member {ms : List (String × Json)} {fs : List (String × α)}
      (h : ms.Forall₂ (FoldsMember asm) fs) (key : String) :
      Mirrors asm (.member ms key) (.member fs key)

@[inherit_doc Frame.Mirrors]
inductive After.Mirrors (asm : Assembly α) : After Json → After α → Prop
  | root {j : Json} {v : α} (h : Folds asm j v) : Mirrors asm (.root j) (.root v)
  | element {js : List Json} {vs : List α} (h : js.Forall₂ (Folds asm) vs) :
      Mirrors asm (.element js) (.element vs)
  | member {ms : List (String × Json)} {fs : List (String × α)}
      (h : ms.Forall₂ (FoldsMember asm) fs) : Mirrors asm (.member ms) (.member fs)

/-- The readers are at the same point. -/
inductive Mode.Mirrors (asm : Assembly α) : Mode Json → Mode α → Prop
  | value : Mirrors asm .value .value
  | firstElement : Mirrors asm .firstElement .firstElement
  | nextElement {js : List Json} {vs : List α} (h : js.Forall₂ (Folds asm) vs) :
      Mirrors asm (.nextElement js) (.nextElement vs)
  | firstKey : Mirrors asm .firstKey .firstKey
  | nextKey {ms : List (String × Json)} {fs : List (String × α)}
      (h : ms.Forall₂ (FoldsMember asm) fs) : Mirrors asm (.nextKey ms) (.nextKey fs)
  | key {ms : List (String × Json)} {fs : List (String × α)}
      (h : ms.Forall₂ (FoldsMember asm) fs) (p : Partial) : Mirrors asm (.key ms p) (.key fs p)
  | colon {ms : List (String × Json)} {fs : List (String × α)}
      (h : ms.Forall₂ (FoldsMember asm) fs) (key : String) :
      Mirrors asm (.colon ms key) (.colon fs key)
  | word (left : List Char) {j : Json} {v : α} (h : Folds asm j v) :
      Mirrors asm (.word left j) (.word left v)
  | numeral (n : Numeral) : Mirrors asm (.numeral n) (.numeral n)
  | text (p : Partial) : Mirrors asm (.text p) (.text p)
  | after {a : After Json} {b : After α} (h : a.Mirrors asm b) : Mirrors asm (.after a) (.after b)

/-- Each piece that the plain reader holds folds to the piece that the other reader holds. -/
structure State.Mirrors (asm : Assembly α) (s : State Json) (t : State α) : Prop where
  stack : s.stack.Forall₂ (Frame.Mirrors asm) t.stack
  mode : s.mode.Mirrors asm t.mode

/-- What the other reader does when the plain one does this: it stays with it, or it stops at a
brace.  Nothing is said about texts that the plain reader refuses. -/
inductive Follows (asm : Assembly α) (c : Char) :
    Except Failure (State Json) → Except Failure (State α) → Prop
  | fail (e : Failure) (y : Except Failure (State α)) : Follows asm c (.error e) y
  | step {s : State Json} {t : State α} (h : s.Mirrors asm t) : Follows asm c (.ok s) (.ok t)
  | refuse {stack : List (Frame Json)} {members : List (String × Json)} (hc : c = '\x7d')
      (h : Refused asm members) : Follows asm c (.ok (State.settle (.object members) stack))
        (.error ⟨State.path stack, .invalidExtended⟩)

theorem Follows.ite {c : Char} {p : Prop} [Decidable p] {x x' : Except Failure (State Json)}
    {y y' : Except Failure (State α)} (h : p → Follows asm c x y)
    (h' : ¬ p → Follows asm c x' y') :
    Follows asm c (if p then x else x') (if p then y else y') := by
  split
  · exact h ‹_›
  · exact h' ‹_›

namespace State

section Step

variable {stack : List (Frame Json)} {stack' : List (Frame α)} {s : State Json} {t : State α}
  {c : Char}

theorem path_mirrors (h : stack.Forall₂ (Frame.Mirrors asm) stack') : path stack = path stack' := by
  have hsegments : stack.map Frame.segment = stack'.map Frame.segment := by
    induction h with
    | nil => rfl
    | cons hf _ ih =>
      rw [List.map_cons, List.map_cons, ih]
      cases hf with
      | element h => rw [Frame.segment, Frame.segment, h.length_eq]
      | member h key => rfl
  rw [path, path, hsegments]

theorem mirrors_settle {j : Json} {v : α} (hs : stack.Forall₂ (Frame.Mirrors asm) stack')
    (hj : Folds asm j v) : (settle j stack).Mirrors asm (settle v stack') := by
  cases hs with
  | nil => exact ⟨.nil, .after (.root hj)⟩
  | cons hf hs =>
    cases hf with
    | element h => exact ⟨hs, .after (.element (.cons hj h))⟩
    | member h key => exact ⟨hs, .after (.member (.cons ⟨rfl, hj⟩ h))⟩

/-- A value that has been put in its place folds. -/
theorem folds_of_mirrors_settle {j : Json} (h : (settle j stack).Mirrors asm t) :
    ∃ v, j.fold asm = some v := by
  obtain ⟨_, hmode⟩ := h
  match stack with
  | [] =>
    generalize t.mode = mode at hmode
    cases hmode with
    | after h => cases h with | root h => exact ⟨_, h⟩
  | .element done :: r =>
    generalize t.mode = mode at hmode
    cases hmode with
    | after h => cases h with | element h => cases h with | cons hj _ => exact ⟨_, hj⟩
  | .member done key :: r =>
    generalize t.mode = mode at hmode
    cases hmode with
    | after h => cases h with | member h => cases h with | cons hm _ => exact ⟨_, hm.2⟩

theorem follows_closeObject {ms : List (String × Json)} {fs : List (String × α)}
    (hs : stack.Forall₂ (Frame.Mirrors asm) stack') (h : ms.Forall₂ (FoldsMember asm) fs)
    (hc : c = '\x7d') : Follows asm c (closeObject .tree stack ms) (closeObject asm stack' fs) := by
  have hfold : foldMembers asm ms.reverse = some fs.reverse :=
    foldMembers_of_forall₂ (List.forall₂_reverse_iff.2 h)
  rw [closeObject, closeObject]
  split
  · rename_i j hj
    cases hj
    split
    · rename_i v hv
      refine .step (mirrors_settle hs ?_)
      rw [Folds, fold, hfold, Option.bind_some, hv]
    · rename_i hnone
      rw [fail, ← path_mirrors hs]
      exact .refuse hc ⟨fs.reverse, hfold, hnone⟩
  · exact .fail _ _

theorem follows_stepValue (hs : stack.Forall₂ (Frame.Mirrors asm) stack') :
    Follows asm c (stepValue .tree stack c) (stepValue asm stack' c) := by
  rw [stepValue, stepValue, hs.length_eq]
  refine .ite (fun _ => .step ⟨hs, .text .start⟩) fun _ => ?_
  refine .ite (fun _ => .ite (fun _ => .fail _ _) fun _ => .step ⟨hs, .firstElement⟩) fun _ => ?_
  refine .ite (fun _ => .ite (fun _ => .fail _ _) fun _ => .step ⟨hs, .firstKey⟩) fun _ => ?_
  refine .ite (fun _ => .step ⟨hs, .word _ rfl⟩) fun _ => ?_
  refine .ite (fun _ => .step ⟨hs, .word _ rfl⟩) fun _ => ?_
  refine .ite (fun _ => .step ⟨hs, .word _ rfl⟩) fun _ => ?_
  cases Numeral.start? c with
  | none => exact .fail _ _
  | some n => exact .step ⟨hs, .numeral n⟩

theorem follows_stepAfter {a : After Json} {b : After α}
    (hs : stack.Forall₂ (Frame.Mirrors asm) stack') (h : a.Mirrors asm b) :
    Follows asm c (stepAfter .tree stack a c) (stepAfter asm stack' b c) := by
  rw [stepAfter.eq_def, stepAfter.eq_def]
  refine .ite (fun _ => .step ⟨hs, .after h⟩) fun _ => ?_
  cases h with
  | root h => exact .fail _ _
  | element h =>
    refine .ite (fun _ => .step ⟨hs, .nextElement h⟩) fun _ => ?_
    refine .ite (fun _ => .step (mirrors_settle hs ?_)) fun _ => .fail _ _
    exact Option.map_eq_some_iff.2
      ⟨_, foldItems_of_forall₂ (List.forall₂_reverse_iff.2 h), rfl⟩
  | member h =>
    refine .ite (fun _ => .step ⟨hs, .nextKey h⟩) fun _ => ?_
    exact .ite (fun hc => follows_closeObject hs h hc) fun _ => .fail _ _

theorem follows_stepBehind {j : Json} {v : α} (hs : stack.Forall₂ (Frame.Mirrors asm) stack')
    (hj : Folds asm j v) :
    Follows asm c (stepAfter .tree (complete j stack).1 (complete j stack).2 c)
      (stepAfter asm (complete v stack').1 (complete v stack').2 c) := by
  cases hs with
  | nil => exact follows_stepAfter .nil (.root hj)
  | cons hf hs =>
    cases hf with
    | element h => exact follows_stepAfter hs (.element (.cons hj h))
    | member h key => exact follows_stepAfter hs (.member (.cons ⟨rfl, hj⟩ h))

/-- **One character**: the readers stay together, or it is the brace of an object that is
refused. -/
theorem follows_step (h : s.Mirrors asm t) : Follows asm c (step .tree s c) (step asm t c) := by
  have hstay : Follows asm c (.ok s) (.ok t) := .step h
  obtain ⟨stack, mode⟩ := s
  obtain ⟨stack', mode'⟩ := t
  obtain ⟨hs, hmode⟩ := h
  rw [step.eq_def, step.eq_def]
  cases hmode with
  | value => exact .ite (fun _ => hstay) fun _ => follows_stepValue hs
  | firstElement =>
    refine .ite (fun _ => hstay) fun _ => ?_
    refine .ite (fun _ => .step (mirrors_settle hs rfl)) fun _ => ?_
    exact follows_stepValue (.cons (.element .nil) hs)
  | nextElement h =>
    refine .ite (fun _ => hstay) fun _ => ?_
    exact .ite (fun _ => .fail _ _) fun _ => follows_stepValue (.cons (.element h) hs)
  | firstKey =>
    refine .ite (fun _ => hstay) fun _ => ?_
    refine .ite (fun _ => .step ⟨hs, .key .nil .start⟩) fun _ => ?_
    exact .ite (fun hc => follows_closeObject hs .nil hc) fun _ => .fail _ _
  | nextKey h =>
    refine .ite (fun _ => hstay) fun _ => ?_
    refine .ite (fun _ => .step ⟨hs, .key h .start⟩) fun _ => ?_
    exact .ite (fun _ => .fail _ _) fun _ => .fail _ _
  | key h p =>
    dsimp only
    rcases p.extend c with fault | _ | q
    · exact .fail _ _
    · exact .step ⟨hs, .colon h p.text⟩
    · exact .step ⟨hs, .key h q⟩
  | colon h key =>
    refine .ite (fun _ => hstay) fun _ => ?_
    exact .ite (fun _ => .step ⟨.cons (.member h key) hs, .value⟩) fun _ => .fail _ _
  | word left h =>
    cases left with
    | nil => exact follows_stepBehind hs h
    | cons d r =>
      refine .ite (fun _ => ?_) fun _ => .fail _ _
      exact .ite (fun _ => .step (mirrors_settle hs h)) fun _ => .step ⟨hs, .word r h⟩
  | numeral n =>
    dsimp only
    rcases n.extend c with fault | _ | m
    · exact .fail _ _
    · dsimp only
      cases n.close with
      | error fault => exact .fail _ _
      | ok m => exact follows_stepBehind hs rfl
    · exact .step ⟨hs, .numeral m⟩
  | text p =>
    dsimp only
    rcases p.extend c with fault | _ | q
    · exact .fail _ _
    · exact .step (mirrors_settle hs rfl)
    · exact .step ⟨hs, .text q⟩
  | after h => exact follows_stepAfter hs h

theorem follows_finish {j : Json} (h : s.Mirrors asm t) (hj : finish .tree s = .ok j) :
    ∃ v, finish asm t = .ok v ∧ j.fold asm = some v := by
  have hafter {stack : List (Frame Json)} {stack' : List (Frame α)} {a : After Json} {b : After α}
      (h : a.Mirrors asm b) (hj : finishAfter stack a = .ok j) :
      ∃ v, finishAfter stack' b = .ok v ∧ j.fold asm = some v := by
    cases h <;> cases hj
    exact ⟨_, rfl, ‹_›⟩
  obtain ⟨stack, mode⟩ := s
  obtain ⟨stack', mode'⟩ := t
  obtain ⟨hs, hmode⟩ := h
  rw [finish.eq_def] at hj ⊢
  cases hmode with
  | numeral n =>
    dsimp only at hj ⊢
    split at hj
    · rename_i m hm
      cases hs with
      | nil => exact hafter (After.Mirrors.root (j := .number m) rfl) hj
      | cons hf hs => cases hf <;> cases hj
    · cases hj
  | after h => exact hafter h hj
  | value | firstElement | nextElement | firstKey | nextKey | key | colon | word | text => cases hj

end Step

end State

/-! ### The whole text -/

section Text

open State

variable {text : List Char} {j : Json}

/-- The readers stay together over a text, or part at a brace. -/
theorem run_mirrors {s u : State Json} {t : State α} (h : s.Mirrors asm t)
    (hu : text.foldlM (step .tree) s = .ok u) :
    (∃ w, text.foldlM (step asm) t = .ok w ∧ u.Mirrors asm w)
      ∨ ∃ before after m w stack members, text = before ++ '\x7d' :: after
        ∧ before.foldlM (step .tree) s = .ok m ∧ before.foldlM (step asm) t = .ok w
        ∧ step .tree m '\x7d' = .ok (settle (.object members) stack) ∧ Refused asm members
        ∧ text.foldlM (step asm) t = .error ⟨State.path stack, .invalidExtended⟩ := by
  induction text generalizing s t with
  | nil =>
    cases hu
    exact .inl ⟨t, rfl, h⟩
  | cons c r ih =>
    obtain ⟨m, hm, hu⟩ := bind_eq_ok.1 hu
    have hfollows := @follows_step α asm s t c h
    rw [hm] at hfollows
    generalize hw : step asm t c = y at hfollows
    cases hfollows with
    | step hnext =>
      rename_i w
      obtain ⟨v, hv, hend⟩ | ⟨before, after, n, v, stack, members, rfl, hn, hv, hstep, hstop⟩ :=
        ih hnext hu
      · exact .inl ⟨v, bind_eq_ok.2 ⟨w, hw, hv⟩, hend⟩
      · refine .inr ⟨c :: before, after, n, v, stack, members, rfl, bind_eq_ok.2 ⟨m, hm, hn⟩,
          bind_eq_ok.2 ⟨w, hw, hv⟩, hstep, hstop.1, ?_⟩
        rw [List.foldlM_cons, hw]
        exact hstop.2
    | refuse hc hbad =>
      subst hc
      refine .inr ⟨[], r, s, t, _, _, rfl, rfl, rfl, hm, hbad, ?_⟩
      rw [List.foldlM_cons, hw]
      rfl

theorem mirrors_start : start.Mirrors asm start := ⟨.nil, .value⟩

/-- Before the other reader stops, no object is refused. -/
theorem not_refused_of_run {w : State α} {n : Nat} {path : List Segment}
    {members : List (String × Json)} {before : List Char} (hbefore : before <+: text)
    (hw : before.foldlM (step asm) start = .ok w) (hn : ClosesAt text n path members)
    (hlt : n < before.length) : ¬ Refused asm members := by
  intro hbad
  obtain ⟨first, last, s, stack, rfl, rfl, hs, hstep, -⟩ := closesAt_iff.1 hn
  have hclosed : (first ++ ['\x7d']).foldlM (step .tree) start
      = .ok (settle (.object members) stack) := by
    rw [List.foldlM_append, hs, ok_bind, List.foldlM_cons, hstep]
    rfl
  have hprefix : first ++ ['\x7d'] <+: before := by
    refine List.prefix_of_prefix_length_le ⟨last, ?_⟩ hbefore ?_
    · rw [List.append_assoc, List.singleton_append]
    · rw [List.length_append, List.length_singleton]
      exact hlt
  obtain ⟨rest, rfl⟩ := hprefix
  rw [List.foldlM_append] at hw
  obtain ⟨v, hv, _⟩ := bind_eq_ok.1 hw
  -- the other reader has got past this brace, so what the brace closes folds
  obtain ⟨_, _, hmirrors⟩ | ⟨_, _, _, _, _, _, _, _, _, _, _, hstop⟩ :=
    run_mirrors mirrors_start hclosed
  · obtain ⟨u, hu⟩ := folds_of_mirrors_settle hmirrors
    exact hbad.not_folds u hu
  · rw [hstop] at hv
    cases hv

/-- **The reader makes what the plain tree folds to**, or stops at the first brace of an object that
is refused. -/
theorem readWith_cases (asm : Assembly α) (h : read text = .ok j) :
    (∃ v, readWith asm text = .ok v ∧ j.fold asm = some v)
      ∨ j.fold asm = none ∧ ∃ n path members, ClosesAt text n path members ∧ Refused asm members
        ∧ (∀ m other fields, ClosesAt text m other fields → Refused asm fields → n ≤ m)
        ∧ readWith asm text = .error ⟨path, .invalidExtended⟩ := by
  obtain ⟨s, hs, hj⟩ := bind_eq_ok.1 h
  obtain ⟨t, ht, hmirrors⟩ |
      ⟨before, after, u, w, stack, members, htext, hu, hw, hstep, hbad, hstop⟩ :=
    run_mirrors (mirrors_start : start.Mirrors asm start) hs
  · obtain ⟨v, hv, hfold⟩ := follows_finish hmirrors hj
    exact .inl ⟨v, bind_eq_ok.2 ⟨t, ht, hv⟩, hfold⟩
  · have hcloses : ClosesAt text before.length (State.path stack) members :=
      closesAt_iff.2 ⟨before, after, u, stack, htext, rfl, hu, hstep, rfl⟩
    refine .inr ⟨?_, before.length, State.path stack, members, hcloses, hbad, ?_, ?_⟩
    · rw [Option.eq_none_iff_forall_ne_some]
      intro v hv
      obtain ⟨w, hw⟩ := ((at_iff_closesAt h).2 ⟨_, hcloses⟩).fold hv
      exact hbad.not_folds w hw
    · intro m other fields hm hfields
      refine Nat.le_of_not_lt fun hlt => ?_
      exact not_refused_of_run ⟨_, htext.symm⟩ hw hm hlt hfields
    · rw [readWith, hstop]
      rfl

end Text

end QueryScribe.Json

namespace QueryScribe.Value

open QueryScribe.Json

/-- **Extended JSON is read as a plain tree that is folded from the inside out.**  Of a text that
can be read as plain JSON, the value is what the tree folds to.  If it does not fold, reading stops
at the object that cannot be decoded, though all in it can, and whose closing brace comes first. -/
theorem readValue_folds (text : String) {j : Json} (h : Json.read text.toList = .ok j) :
    (∀ v, readValue text = .ok v ↔ j.fold assembly = some v)
      ∧ (j.fold assembly = none → ∃ n path members, ClosesAt text.toList n path members
        ∧ Refused assembly members
        ∧ (∀ m other fields, ClosesAt text.toList m other fields → Refused assembly fields → n ≤ m)
        ∧ readValue text = .error (.malformed ⟨path, .invalidExtended⟩))
      ∧ ∀ path members, j.At path (.object members) ↔ ∃ n, ClosesAt text.toList n path members := by
  refine ⟨?_, ?_, fun path members => at_iff_closesAt h⟩
  · intro v
    rw [readValue, ofText, Value.read]
    obtain ⟨w, hw, hfold⟩ | ⟨hfold, n, path, members, _, _, _, hstop⟩ := readWith_cases assembly h
    · rw [hw, hfold, Outcome.mapError_ok, Except.ok.injEq, Option.some.injEq]
    · rw [hstop, hfold]
      exact ⟨nofun, nofun⟩
  · intro hnone
    obtain ⟨w, hw, hfold⟩ | ⟨_, n, path, members, hcloses, hbad, hfirst, hstop⟩ :=
      readWith_cases assembly h
    · rw [hfold] at hnone
      cases hnone
    · refine ⟨n, path, members, hcloses, hbad, hfirst, ?_⟩
      rw [readValue, ofText, Value.read, hstop]
      rfl

/-- Two objects that spell no identifier, the first of them in an array. -/
theorem readValue_folds_identifiers :
    Json.read "\x7b\"a\": [\x7b\"$oid\": \"x\"\x7d], \"b\": \x7b\"$oid\": \"y\"\x7d\x7d".toList
        = .ok (.object [("a", .array [.object [("$oid", .string "x")]]),
          ("b", .object [("$oid", .string "y")])])
      ∧ ∃ n path members,
        ClosesAt "\x7b\"a\": [\x7b\"$oid\": \"x\"\x7d], \"b\": \x7b\"$oid\": \"y\"\x7d\x7d".toList n
          path members
        ∧ Refused assembly members
        ∧ readValue "\x7b\"a\": [\x7b\"$oid\": \"x\"\x7d], \"b\": \x7b\"$oid\": \"y\"\x7d\x7d"
          = .error (.malformed ⟨path, .invalidExtended⟩) := by
  have hread : Json.read
      "\x7b\"a\": [\x7b\"$oid\": \"x\"\x7d], \"b\": \x7b\"$oid\": \"y\"\x7d\x7d".toList
      = .ok (.object [("a", .array [.object [("$oid", .string "x")]]),
        ("b", .object [("$oid", .string "y")])]) := rfl
  have hfold : (Json.object [("a", .array [.object [("$oid", .string "x")]]),
      ("b", .object [("$oid", .string "y")])]).fold assembly = none := rfl
  obtain ⟨n, path, members, hcloses, hbad, -, hstop⟩ := (readValue_folds _ hread).2.1 hfold
  exact ⟨hread, n, path, members, hcloses, hbad, hstop⟩

end QueryScribe.Value
