import QueryScribe.Proofs.Json.Containers

/-!
# Ways into a text

A way goes from a text into an array, behind elements that can be read and their commas, or into an
object, behind such members and a key, and so on; what is left of the text is read at its end
(`Leads`).

A value inside containers is put in its place when the character behind it is read (`run_item`), or
it stops, just as it stops alone (`run_inside`, `stuck_inside`).  So elements on the way are put in
their places (`run_elements`), and a reader that stops in an array stops at the array itself or
inside an element behind others (`stuck_elements`).
-/

namespace QueryScribe.Json

open QueryScribe.Outcome

variable {α : Type} {asm : Assembly α}

/-! ### Ways -/

/-- Elements one after another, each with a comma behind it. -/
inductive Elements (asm : Assembly α) : List Char → Nat → Prop
  | nil : Elements asm [] 0
  | cons {item r : List Char} {v : α} {n : Nat} (h : readWith asm item = .ok v)
      (hr : Elements asm r n) : Elements asm (item ++ ',' :: r) (n + 1)

/-- A text is read as a value, and the character behind it does not belong to it. -/
structure EndsBefore (asm : Assembly α) (item : List Char) (c : Char) (v : α) : Prop where
  value : readWith asm item = .ok v
  space : State.isSpace c = false
  trailing : ∀ r, readWith asm (item ++ c :: r) = .error ⟨[], .trailingCharacters⟩

/-- A key as it stands in a text: a string, with white space around it. -/
def KeyText (name : List Char) (key : String) : Prop :=
  (∃ ws r, name = ws ++ '"' :: r ∧ Spaces ws) ∧ read name = .ok (.string key)

/-- Members one after another, each with a comma behind it. -/
inductive Members (asm : Assembly α) : List Char → Prop
  | nil : Members asm []
  | cons {name item r : List Char} {key : String} {v : α} (hk : KeyText name key)
      (h : readWith asm item = .ok v) (hr : Members asm r) :
      Members asm (name ++ ':' :: (item ++ ',' :: r))

/-- A text in which something begins, and not with a bracket that closes. -/
def Begun (text : List Char) : Prop :=
  ∃ ws c r, text = ws ++ c :: r ∧ Spaces ws ∧ State.isSpace c = false ∧ c ≠ ']'

/-- A way leads from a text to the rest of it, which is read at the end of the way. -/
inductive Leads (asm : Assembly α) : List Char → List Segment → List Char → Prop
  | here (text : List Char) : Leads asm text [] text
  | element {ws items inner rest : List Char} {n : Nat} {way : List Segment} (hws : Spaces ws)
      (hi : Elements asm items n) (hb : Begun inner) (h : Leads asm inner way rest) :
      Leads asm (ws ++ '[' :: (items ++ inner)) (.index n :: way) rest
  | member {ws members name inner rest : List Char} {key : String} {way : List Segment}
      (hws : Spaces ws) (hm : Members asm members) (hk : KeyText name key)
      (h : Leads asm inner way rest) :
      Leads asm (ws ++ '\x7b' :: (members ++ (name ++ ':' :: inner))) (.member key :: way) rest

/-! ### White space -/

theorem spaces_or (text : List Char) :
    Spaces text ∨ ∃ ws c r, text = ws ++ c :: r ∧ Spaces ws ∧ State.isSpace c = false := by
  induction text with
  | nil => exact .inl fun c hc => absurd hc List.not_mem_nil
  | cons c r ih =>
    by_cases hc : State.isSpace c = true
    · have hcons {ws : List Char} (h : Spaces ws) : Spaces (c :: ws) :=
        List.forall_mem_cons.2 ⟨hc, h⟩
      obtain h | ⟨ws, d, rest, rfl, h, hd⟩ := ih
      · exact .inl (hcons h)
      · exact .inr ⟨c :: ws, d, rest, rfl, hcons h, hd⟩
    · exact .inr ⟨[], c, r, rfl, fun d hd => absurd hd List.not_mem_nil, by simpa using hc⟩

theorem spaces_unique {ws ws' r r' : List Char} {c c' : Char} (h : Spaces ws) (h' : Spaces ws')
    (hc : State.isSpace c = false) (hc' : State.isSpace c' = false)
    (heq : ws ++ c :: r = ws' ++ c' :: r') : c = c' ∧ r = r' := by
  induction ws generalizing ws' with
  | nil =>
    cases ws' with
    | nil => exact List.cons.inj heq
    | cons d ws' =>
      obtain ⟨rfl, _⟩ := List.cons.inj heq
      rw [h' c List.mem_cons_self] at hc
      cases hc
  | cons d ws ih =>
    cases ws' with
    | nil =>
      obtain ⟨rfl, _⟩ := List.cons.inj heq
      rw [h d List.mem_cons_self] at hc'
      cases hc'
    | cons d' ws' =>
      exact ih (fun e he => h e (List.mem_cons_of_mem _ he))
        (fun e he => h' e (List.mem_cons_of_mem _ he)) (List.cons.inj heq).2

theorem Numeral.ended_of_close {n : Numeral} {m : JsonNumber} (h : n.close = .ok m) : n.ended := by
  unfold close at h
  unfold ended
  split at h
  · exact .inl ‹_›
  · exact .inr (.inl ‹_›)
  · exact .inr (.inr (.inl ‹_›))
  · exact .inr (.inr (.inr ‹_›))
  · cases h

namespace State

variable {s t : State α} {text : List Char} {f : Failure}

theorem run_steps {a : List Char} (h : Steps asm s a t) (b : List Char) :
    run asm s (a ++ b) = run asm t b := by
  rw [run, List.foldlM_append, h]
  rfl

/-- White space in a state that takes it apart from all other characters. -/
theorem run_skip {ws : List Char} {next : Char → Except Failure (State α)} (h : Spaces ws)
    (hs : ∀ c, step asm s c = if isSpace c = true then .ok s else next c) (b : List Char) :
    run asm s (ws ++ b) = run asm s b := run_steps (.skip h hs) b

theorem run_start_skip (asm : Assembly α) {ws : List Char} (h : Spaces ws) (b : List Char) :
    run asm start (ws ++ b) = run asm start b := run_skip h (fun _ => rfl) b

theorem run_start_cons {c : Char} (hc : isSpace c = false) (r : List Char) :
    run asm start (c :: r) = stepValue asm [] c >>= fun t => run asm t r := by
  have hstep : step asm start c = stepValue asm [] c := if_neg (by rw [hc]; decide)
  rw [run_cons, hstep]

/-- Behind the root only white space may follow. -/
theorem run_root (asm : Assembly α) (v : α) (text : List Char) :
    Spaces text ∧ run asm ⟨[], .after (.root v)⟩ text = .ok v
      ∨ run asm ⟨[], .after (.root v)⟩ text = .error ⟨[], .trailingCharacters⟩ := by
  have hstep (c : Char) : step asm ⟨[], .after (.root v)⟩ c
      = if isSpace c = true then .ok ⟨[], .after (.root v)⟩
        else .error ⟨[], .trailingCharacters⟩ := rfl
  obtain h | ⟨ws, c, r, rfl, hws, hc⟩ := spaces_or text
  · refine .inl ⟨h, ?_⟩
    rw [← List.append_nil text, run_skip h hstep]
    rfl
  · refine .inr ?_
    rw [run_skip hws hstep, run_cons, hstep, hc]
    rfl

/-- The reader is in a value without containers, or behind the root. -/
inductive Plain : State α → Prop
  | word (left : List Char) (v : α) : Plain ⟨[], .word left v⟩
  | numeral (n : Numeral) : Plain ⟨[], .numeral n⟩
  | text (p : Partial) : Plain ⟨[], .text p⟩
  | behind (v : α) : Plain ⟨[], .after (.root v)⟩

theorem plain_stepAfter (v : α) (c : Char) :
    (∃ t, stepAfter asm [] (.root v) c = .ok t ∧ Plain t)
      ∨ ∃ fault, stepAfter asm [] (.root v) c = .error ⟨[], fault⟩ := by
  rw [stepAfter.eq_def]
  split
  · exact .inl ⟨_, rfl, .behind v⟩
  · exact .inr ⟨_, rfl⟩

theorem plain_step (asm : Assembly α) (hs : Plain s) (c : Char) :
    (∃ t, step asm s c = .ok t ∧ Plain t) ∨ ∃ fault, step asm s c = .error ⟨[], fault⟩ := by
  rw [step.eq_def]
  cases hs with
  | word left v =>
    cases left with
    | nil => exact plain_stepAfter v c
    | cons d r =>
      dsimp only
      split
      · split
        · exact .inl ⟨_, rfl, .behind v⟩
        · exact .inl ⟨_, rfl, .word r v⟩
      · exact .inr ⟨_, rfl⟩
  | numeral n =>
    dsimp only
    rcases n.extend c with fault | _ | m
    · exact .inr ⟨fault, rfl⟩
    · dsimp only
      rcases n.close with fault | m
      · exact .inr ⟨fault, rfl⟩
      · exact plain_stepAfter (asm.number m) c
    · exact .inl ⟨_, rfl, .numeral m⟩
  | text p =>
    dsimp only
    rcases p.extend c with fault | _ | q
    · exact .inr ⟨fault, rfl⟩
    · exact .inl ⟨_, rfl, .behind _⟩
    · exact .inl ⟨_, rfl, .text q⟩
  | behind v => exact plain_stepAfter v c

/-- Without containers there is only one place. -/
theorem path_of_plain (hs : Plain s) (h : run asm s text = .error f) : f.path = [] := by
  induction text generalizing s with
  | nil =>
    rw [run_nil, finish.eq_def] at h
    cases hs with
    | word | text =>
      cases h
      rfl
    | behind v => cases h
    | numeral n =>
      dsimp only at h
      rcases hn : n.close with fault | m
      · rw [hn] at h
        cases h
        rfl
      · rw [hn] at h
        cases h
  | cons c r ih =>
    rw [run_cons] at h
    obtain ⟨t, ht, hplain⟩ | ⟨fault, hfault⟩ := plain_step asm hs c
    · rw [ht] at h
      exact ih hplain h
    · rw [hfault] at h
      cases h
      rfl

theorem path_of_stepValue {c : Char} (hbracket : c ≠ '[') (hbrace : c ≠ '\x7b')
    (h : stepValue asm [] c >>= (fun t => run asm t text) = .error f) : f.path = [] := by
  rw [stepValue, if_neg hbracket, if_neg hbrace] at h
  split at h
  · exact path_of_plain (.text _) h
  · split at h
    · exact path_of_plain (.word _ _) h
    · split at h
      · exact path_of_plain (.word _ _) h
      · split at h
        · exact path_of_plain (.word _ _) h
        · split at h
          · exact path_of_plain (.numeral _) h
          · cases h
            rfl

/-! ### A value and what is behind it -/

theorem over_start (base : List (Frame α)) : Over base start ⟨base, .value⟩ := .inside [] trivial

/-- A comma ends a value that is complete, and is itself one character too many. -/
theorem step_comma {v : α} (h : finish asm s = .ok v) :
    step asm s ',' = .error ⟨[], .trailingCharacters⟩ := by
  obtain ⟨stack, mode⟩ := s
  rw [finish.eq_def] at h
  cases mode with
  | value | firstElement | nextElement | firstKey | nextKey | key | colon | word | text => cases h
  | numeral n =>
    dsimp only at h
    rcases hm : n.close with fault | m
    · rw [hm] at h
      cases h
    · rw [hm] at h
      have hextend : n.extend ',' = .ok none := extend_follower (Numeral.ended_of_close hm) rfl
      cases stack with
      | nil =>
        rw [step.eq_def]
        simp only [hextend, hm]
        rfl
      | cons frame r =>
        cases frame with
        | element done => cases h
        | member done key => cases h
  | after after =>
    cases after with
    | root w => rfl
    | element done => cases h
    | member done => cases h

theorem endsBefore_comma {item : List Char} {v : α} (h : readWith asm item = .ok v) :
    EndsBefore asm item ',' v := by
  refine ⟨h, rfl, fun r => ?_⟩
  obtain ⟨s, hs, hv⟩ := bind_eq_ok.1 h
  show run asm start _ = _
  rw [run_steps hs, run_cons, step_comma hv]
  rfl

/-- **A value inside containers and the character behind it**: the value is put in its place, unless
it is nested too deep there. -/
theorem run_item {item : List Char} {c : Char} {v : α} (h : EndsBefore asm item c v)
    (base : List (Frame α)) (r : List Char) :
    run asm ⟨base, .value⟩ (item ++ c :: r)
        = stepAfter asm (complete v base).1 (complete v base).2 c >>= (fun u => run asm u r)
      ∨ ∃ place, run asm ⟨base, .value⟩ (item ++ c :: r) = .error ⟨place, .tooDeep⟩ := by
  have hend : run asm start (item ++ c :: r) = _ := h.trailing r
  cases run_over asm (over_start base) (item ++ c :: r) with
  | stuck f hf alone inside =>
    rw [hend] at alone
    cases alone
    exact absurd rfl hf
  | deep place inside => exact .inr ⟨place, inside⟩
  | done w alone inside =>
    rw [hend] at alone
    cases alone
  | past item' c' rest w htext hc alone trailing inside =>
    -- both values end at the same character: behind it nothing can be read, and before it all can
    have hsame : item = item' ∧ c :: r = c' :: rest := by
      obtain ⟨a, rfl, htail⟩ | ⟨a, rfl, htail⟩ := List.append_eq_append_iff.1 htext
      · cases a with
        | nil => exact ⟨(List.append_nil item).symm, htail⟩
        | cons d a =>
          cases htail
          have htrailing : run asm start (item ++ c :: a) = _ := h.trailing a
          rw [htrailing] at alone
          cases alone
      · cases a with
        | nil => exact ⟨List.append_nil item', htail.symm⟩
        | cons d a =>
          cases htail
          have htrailing : readWith asm (item' ++ c' :: a) = _ := trailing a
          rw [h.value] at htrailing
          cases htrailing
    obtain ⟨rfl, htail⟩ := hsame
    cases htail
    obtain rfl : v = w := Except.ok.inj (h.value.symm.trans alone)
    exact .inl inside

/-- What fails alone fails inside containers, unless it is nested too deep there. -/
theorem run_inside {g : Failure} (h : readWith asm text = .error g)
    (hg : g.fault ≠ .trailingCharacters) (base : List (Frame α)) :
    run asm ⟨base, .value⟩ text = .error ⟨path base ++ g.path, g.fault⟩
      ∨ ∃ place, run asm ⟨base, .value⟩ text = .error ⟨place, .tooDeep⟩ := by
  have halone : run asm start text = .error g := h
  cases run_over asm (over_start base) text with
  | stuck f hf alone inside =>
    rw [halone] at alone
    cases alone
    exact .inl inside
  | deep place inside => exact .inr ⟨place, inside⟩
  | done v alone inside =>
    rw [halone] at alone
    cases alone
  | past item c rest v htext hc alone trailing inside =>
    have htrailing := trailing rest
    rw [← htext, halone] at htrailing
    cases htrailing
    exact absurd rfl hg

/-- **Where a value inside containers stops**: in the value itself, or behind it, at the end of the
text or further on. -/
theorem stuck_inside {base : List (Frame α)} (h : run asm ⟨base, .value⟩ text = .error f)
    (hf : f.fault ≠ .tooDeep) :
    (∃ g, readWith asm text = .error g ∧ f = ⟨path base ++ g.path, g.fault⟩)
      ∨ (∃ v, readWith asm text = .ok v
        ∧ finishAfter (complete v base).1 (complete v base).2 = .error f)
      ∨ ∃ item c rest v, text = item ++ c :: rest ∧ EndsBefore asm item c v
        ∧ stepAfter asm (complete v base).1 (complete v base).2 c >>= (fun u => run asm u rest)
          = .error f := by
  cases run_over asm (over_start base) text with
  | stuck g hg alone inside =>
    rw [inside] at h
    exact .inl ⟨g, alone, (Except.error.inj h).symm⟩
  | deep place inside =>
    rw [inside] at h
    cases h
    exact absurd rfl hf
  | done v alone inside => exact .inr (.inl ⟨v, alone, inside.symm.trans h⟩)
  | past item c rest v htext hc alone trailing inside =>
    exact .inr (.inr ⟨item, c, rest, v, htext, ⟨alone, hc, trailing⟩, inside.symm.trans h⟩)

/-! ### Elements -/

/-- Where an element may begin, behind the elements so far. -/
inductive AtElement : List α → State α → Prop
  | first : AtElement [] ⟨[], .firstElement⟩
  | next (done : List α) : AtElement done ⟨[], .nextElement done⟩

theorem run_atElement {done : List α} (hs : AtElement done s) (hb : Begun text) :
    run asm s text = run asm ⟨[.element done], .value⟩ text := by
  obtain ⟨ws, c, r, rfl, hws, hc, hne⟩ := hb
  have hvalue : run asm ⟨[.element done], .value⟩ (ws ++ c :: r)
      = stepValue asm [.element done] c >>= fun u => run asm u r := by
    have hstep : step asm ⟨[.element done], .value⟩ c = stepValue asm [.element done] c :=
      if_neg (by rw [hc]; decide)
    rw [run_skip hws (fun _ => rfl), run_cons, hstep]
  have hstep : step asm s c = stepValue asm [.element done] c := by
    cases hs with
    | first => rw [step]; simp [hc, hne]
    | next done => rw [step]; simp [hc, hne]
  have hskip : run asm s (ws ++ c :: r) = run asm s (c :: r) := by
    cases hs with
    | first => exact run_skip hws (fun _ => rfl) _
    | next done => exact run_skip hws (fun _ => rfl) _
  rw [hvalue, hskip, run_cons, hstep]

theorem begun_of_readWith {item : List Char} {v : α} (h : readWith asm item = .ok v)
    (r : List Char) : Begun (item ++ r) := by
  have hrun : run asm start item = .ok v := h
  obtain hws | ⟨ws, c, rest, rfl, hws, hc⟩ := spaces_or item
  · rw [← List.append_nil item, run_start_skip _ hws] at hrun
    cases hrun
  · refine ⟨ws, c, rest ++ r, by rw [List.append_assoc, List.cons_append], hws, hc, ?_⟩
    rintro rfl
    rw [run_start_skip _ hws] at hrun
    cases hrun

/-- Elements are put in their places, unless one is nested too deep there. -/
theorem run_elements {items : List Char} {n : Nat} (hi : Elements asm items n) {done : List α}
    (hs : AtElement done s) (inner : List Char) :
    (∃ done' s', AtElement done' s' ∧ done'.length = done.length + n
        ∧ run asm s (items ++ inner) = run asm s' inner)
      ∨ ∃ place, run asm s (items ++ inner) = .error ⟨place, .tooDeep⟩ := by
  induction hi generalizing done s with
  | nil => exact .inl ⟨done, s, hs, rfl, rfl⟩
  | @cons item r v n h hr ih =>
    rw [List.append_assoc, List.cons_append, run_atElement hs (begun_of_readWith h _)]
    obtain hrun | hdeep := run_item (endsBefore_comma h) [.element done] (r ++ inner)
    · have hnext : run asm ⟨[.element done], .value⟩ (item ++ ',' :: (r ++ inner))
          = run asm ⟨[], .nextElement (v :: done)⟩ (r ++ inner) := hrun
      rw [hnext]
      obtain ⟨done', s', hs', hlen, hrest⟩ | hdeep := ih (.next (v :: done))
      · exact .inl ⟨done', s', hs', by rw [hlen, List.length_cons]; omega, hrest⟩
      · exact .inr hdeep
    · exact .inr hdeep

/-- Where no element begins, the text ends or the array does, and that is at the array itself. -/
theorem path_of_not_begun {done : List α} (hs : AtElement done s) (hb : ¬ Begun text)
    (h : run asm s text = .error f) : f.path = [] := by
  obtain hws | ⟨ws, c, r, rfl, hws, hc⟩ := spaces_or text
  · rw [← List.append_nil text] at h
    cases hs with
    | first | next =>
      rw [run_skip hws (fun _ => rfl)] at h
      cases h
      rfl
  · have hclose : c = ']' := by
      by_contra hne
      exact hb ⟨ws, c, r, rfl, hws, hc, hne⟩
    subst hclose
    cases hs with
    | first =>
      rw [run_skip hws (fun _ => rfl), run_cons] at h
      exact path_of_plain (.behind _) h
    | next =>
      rw [run_skip hws (fun _ => rfl), run_cons] at h
      cases h
      rfl

/-- **Where elements stop**: at the array itself, or inside an element that begins behind
others. -/
theorem stuck_elements {done : List α} (hs : AtElement done s) (h : run asm s text = .error f)
    (hf : f.fault ≠ .tooDeep) :
    f.path = [] ∨ ∃ items n inner g, text = items ++ inner ∧ Elements asm items n ∧ Begun inner
      ∧ readWith asm inner = .error g ∧ f = ⟨.index (done.length + n) :: g.path, g.fault⟩ := by
  induction hn : text.length using Nat.strongRecOn generalizing text done s with
  | ind n ih =>
    subst hn
    by_cases hb : Begun text
    · rw [run_atElement hs hb] at h
      obtain ⟨g, hg, rfl⟩ | ⟨v, -, hend⟩ | ⟨item, c, rest, v, htext, hitem, hafter⟩ :=
        stuck_inside h hf
      · exact .inr ⟨[], 0, text, g, rfl, .nil, hb, hg, rfl⟩
      · cases hend
        exact .inl rfl
      · change stepAfter asm [] (.element (v :: done)) c >>= (fun u => run asm u rest)
          = .error f at hafter
        rw [stepAfter.eq_def, hitem.space] at hafter
        dsimp only at hafter
        rw [if_neg (by decide)] at hafter
        split at hafter
        · rename_i hcomma
          subst hcomma
          have hshort : rest.length < text.length := by
            rw [htext, List.length_append, List.length_cons]
            omega
          obtain hpath | ⟨items, n, inner, g, hrest, hi, hbegun, hg, rfl⟩ :=
            ih rest.length hshort (.next (v :: done)) hafter rfl
          · exact .inl hpath
          · refine .inr ⟨item ++ ',' :: items, n + 1, inner, g, ?_, .cons hitem.value hi, hbegun, hg,
              ?_⟩
            · rw [htext, hrest, List.append_assoc, List.cons_append]
            · rw [List.length_cons, Nat.add_assoc, Nat.add_comm 1 n]
        · split at hafter
          · exact .inl (path_of_plain (.behind _) hafter)
          · cases hafter
            exact .inl rfl
    · exact .inl (path_of_not_begun hs hb h)

end State

end QueryScribe.Json
