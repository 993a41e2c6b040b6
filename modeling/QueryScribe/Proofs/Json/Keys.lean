import QueryScribe.Proofs.Json.Ways

/-!
# Where a reader stops in an object

A key in an object is read as the string alone is (`run_keyText`), so members on a way are put in
their places (`run_members`).  A reader that stops in an object stops at the object itself, at a
key, or inside the value of a member behind others (`stuck_members`).

It stops at a key where a member should stand and there is none: no string is there, or none that
ends, or neither a comma nor a brace stands behind the value.  `KeyStops` says this of the text
alone, and it is also enough (`run_keyStops`).
-/

namespace QueryScribe.Json

variable {α : Type} {asm : Assembly α}

/-! ### Texts without a key -/

/-- No beginning of the text is the rest of a string. -/
def Unclosed (p : Partial) (text : List Char) : Prop :=
  ∀ body r key, text = body ++ r → State.run .tree ⟨[], .text p⟩ body ≠ .ok (.string key)

/-- No beginning of the text is a key. -/
def NoKey (text : List Char) : Prop := ∀ name r key, text = name ++ r → ¬ KeyText name key

/-- A text that begins with a brace that closes. -/
def Closing (text : List Char) : Prop := ∃ ws r, text = ws ++ '\x7d' :: r ∧ Spaces ws

/-- A text that stops at a key, where a member should stand: there is none, or the text ends behind
its value, or something else than a comma or a brace stands there. -/
inductive KeyStop (asm : Assembly α) : List Char → Prop
  | missing {text : List Char} (h : NoKey text) : KeyStop asm text
  | cut {name item : List Char} {key : String} {v : α} (hk : KeyText name key)
      (h : readWith asm item = .ok v) : KeyStop asm (name ++ ':' :: item)
  | behind {name item r : List Char} {key : String} {c : Char} {v : α} (hk : KeyText name key)
      (h : EndsBefore asm item c v) (hcomma : c ≠ ',') (hbrace : c ≠ '\x7d') :
      KeyStop asm (name ++ ':' :: (item ++ c :: r))

/-- Members of which one stops at a key.  Behind the opening brace the object may also be closed. -/
def KeyStops (asm : Assembly α) (first : Bool) (text : List Char) : Prop :=
  ∃ members r, text = members ++ r ∧ Members asm members ∧ KeyStop asm r
    ∧ (first = true → members = [] → ¬ Closing r)

theorem noKey_spaces {text : List Char} (h : Spaces text) : NoKey text := by
  rintro name r key rfl ⟨⟨ws, body, rfl, -⟩, -⟩
  have hquote := h '"' (by simp)
  cases hquote

theorem noKey_of_ne {ws r : List Char} {c : Char} (hws : Spaces ws) (hc : State.isSpace c = false)
    (hquote : c ≠ '"') : NoKey (ws ++ c :: r) := by
  rintro name r' key heq ⟨⟨ws', body, rfl, hws'⟩, -⟩
  rw [List.append_assoc, List.cons_append] at heq
  exact hquote (spaces_unique hws hws' hc rfl heq).1

theorem not_closing_spaces {text : List Char} (h : Spaces text) : ¬ Closing text := by
  rintro ⟨ws, r, rfl, -⟩
  have hbrace := h '\x7d' (by simp)
  cases hbrace

theorem not_closing_of_ne {ws r : List Char} {c : Char} (hws : Spaces ws)
    (hc : State.isSpace c = false) (hbrace : c ≠ '\x7d') : ¬ Closing (ws ++ c :: r) := by
  rintro ⟨ws', r', heq, hws'⟩
  exact hbrace (spaces_unique hws hws' hc rfl heq).1

namespace State

variable {s : State α} {text : List Char} {f : Failure} {p q : Partial} {c : Char}
  {done : List (String × α)}

/-! ### Strings and keys, character by character -/

theorem run_text_some (h : p.extend c = .ok (some q)) (r : List Char) :
    run asm ⟨[], .text p⟩ (c :: r) = run asm ⟨[], .text q⟩ r := by
  rw [run_cons, step.eq_def]
  simp only [h]
  rfl

theorem run_text_none (h : p.extend c = .ok none) (r : List Char) :
    run asm ⟨[], .text p⟩ (c :: r) = run asm ⟨[], .after (.root (asm.string p.text))⟩ r := by
  rw [run_cons, step.eq_def]
  simp only [h]
  rfl

theorem run_text_error {fault : Fault} (h : p.extend c = .error fault) (r : List Char) :
    run asm ⟨[], .text p⟩ (c :: r) = .error ⟨[], fault⟩ := by
  rw [run_cons, step.eq_def]
  simp only [h]
  rfl

theorem run_key_some (h : p.extend c = .ok (some q)) (r : List Char) :
    run asm ⟨[], .key done p⟩ (c :: r) = run asm ⟨[], .key done q⟩ r := by
  rw [run_cons, step.eq_def]
  simp only [h]
  rfl

theorem run_key_none (h : p.extend c = .ok none) (r : List Char) :
    run asm ⟨[], .key done p⟩ (c :: r) = run asm ⟨[], .colon done p.text⟩ r := by
  rw [run_cons, step.eq_def]
  simp only [h]
  rfl

theorem run_key_error {fault : Fault} (h : p.extend c = .error fault) (r : List Char) :
    run asm ⟨[], .key done p⟩ (c :: r) = .error ⟨[.key], fault⟩ := by
  rw [run_cons, step.eq_def]
  simp only [h]
  rfl

/-- A string that is closed is read, if only white space follows. -/
theorem run_text_closed (h : p.extend c = .ok none) {ws : List Char} (hws : Spaces ws) :
    run asm ⟨[], .text p⟩ (c :: ws) = .ok (asm.string p.text) := by
  rw [run_text_none h, ← List.append_nil ws]
  exact run_skip hws (fun _ => rfl) []

/-- A string that goes on is unclosed from there. -/
theorem unclosed_cons (h : p.extend c = .ok (some q)) {r : List Char} :
    Unclosed p (c :: r) ↔ Unclosed q r := by
  constructor
  · intro hr body r' key heq
    have hbody := hr (c :: body) r' key (by rw [heq, List.cons_append])
    rwa [run_text_some h] at hbody
  · intro hr body r' key heq
    cases body with
    | nil => exact nofun
    | cons d body =>
      obtain ⟨rfl, htail⟩ := List.cons.inj heq
      rw [run_text_some h]
      exact hr body r' key htail

theorem not_unclosed_cons (h : p.extend c = .ok none) {r : List Char} : ¬ Unclosed p (c :: r) := by
  intro hr
  exact hr [c] r p.text rfl (run_text_closed h fun d hd => absurd hd List.not_mem_nil)

/-- In a key that never ends, the reader stops at the key. -/
theorem run_key_unclosed (h : Unclosed p text) :
    ∃ fault, run asm ⟨[], .key done p⟩ text = .error ⟨[.key], fault⟩ := by
  induction text generalizing p with
  | nil => exact ⟨_, rfl⟩
  | cons c r ih =>
    rcases hp : p.extend c with fault | _ | q
    · exact ⟨fault, run_key_error hp r⟩
    · exact absurd h (not_unclosed_cons hp)
    · rw [run_key_some hp]
      exact ih ((unclosed_cons hp).1 h)

theorem noKey_of_unclosed {ws r : List Char} (hws : Spaces ws) (h : Unclosed .start r) :
    NoKey (ws ++ '"' :: r) := by
  rintro name r' key heq ⟨⟨ws', body, rfl, hws'⟩, hread⟩
  rw [List.append_assoc, List.cons_append] at heq
  obtain ⟨-, htail⟩ := spaces_unique hws hws' rfl rfl heq
  have hrun : run .tree start (ws' ++ '"' :: body) = .ok (.string key) := hread
  rw [run_start_skip _ hws'] at hrun
  exact h body r' key htail hrun

theorem unclosed_of_noKey {ws r : List Char} (hws : Spaces ws) (h : NoKey (ws ++ '"' :: r)) :
    Unclosed .start r := by
  rintro body r' key rfl hrun
  refine h (ws ++ '"' :: body) r' key (by simp) ⟨⟨ws, body, rfl, hws⟩, ?_⟩
  exact (run_start_skip .tree hws _).trans hrun

/-! ### Members -/

/-- Where a member may begin, behind the members so far, and whether that is behind the opening
brace. -/
inductive AtMember : Bool → List (String × α) → State α → Prop
  | first : AtMember true [] ⟨[], .firstKey⟩
  | next (done : List (String × α)) : AtMember false done ⟨[], .nextKey done⟩

/-- A key is read in an object as a string is read alone. -/
theorem run_keyBody {body : List Char} {key : String}
    (h : run .tree ⟨[], .text p⟩ body = .ok (.string key)) (done : List (String × α))
    (r : List Char) :
    run asm ⟨[], .key done p⟩ (body ++ ':' :: r) = run asm ⟨[.member done key], .value⟩ r := by
  induction body generalizing p with
  | nil => cases h
  | cons c body ih =>
    rw [List.cons_append]
    rcases hp : p.extend c with fault | _ | q
    · rw [run_text_error hp] at h
      cases h
    · rw [run_text_none hp] at h
      rw [run_key_none hp]
      obtain ⟨hws, hok⟩ | herror := run_root .tree (.string p.text) body
      · obtain rfl : p.text = key := Json.string.inj (Except.ok.inj (hok.symm.trans h))
        exact (run_skip hws (fun _ => rfl) _).trans (run_cons _ _ _)
      · have hfalse := herror.symm.trans h
        cases hfalse
    · rw [run_text_some hp] at h
      rw [run_key_some hp]
      exact ih h

variable {first : Bool}

theorem run_keyText {name : List Char} {key : String} (hk : KeyText name key)
    (hs : AtMember first done s) (r : List Char) :
    run asm s (name ++ ':' :: r) = run asm ⟨[.member done key], .value⟩ r := by
  obtain ⟨⟨ws, body, rfl, hws⟩, hread⟩ := hk
  have hbody : run .tree ⟨[], .text .start⟩ body = .ok (.string key) := by
    have hrun : run .tree start (ws ++ '"' :: body) = .ok (.string key) := hread
    rw [run_start_skip _ hws] at hrun
    exact hrun
  rw [List.append_assoc, List.cons_append, ← run_keyBody hbody]
  cases hs with
  | first => exact (run_skip hws (fun _ => rfl) _).trans (run_cons _ _ _)
  | next => exact (run_skip hws (fun _ => rfl) _).trans (run_cons _ _ _)

/-- Members are put in their places, unless one is nested too deep there. -/
theorem run_members {members : List Char} (hm : Members asm members) (hs : AtMember first done s)
    (inner : List Char) :
    (∃ first' done' s', AtMember first' done' s' ∧ (first' = true → first = true ∧ members = [])
        ∧ run asm s (members ++ inner) = run asm s' inner)
      ∨ ∃ place, run asm s (members ++ inner) = .error ⟨place, .tooDeep⟩ := by
  induction hm generalizing first done s with
  | nil => exact .inl ⟨first, done, s, hs, fun hfirst => ⟨hfirst, rfl⟩, rfl⟩
  | @cons name item r key v hk h hr ih =>
    rw [List.append_assoc, List.cons_append, List.append_assoc, List.cons_append,
      run_keyText hk hs]
    obtain hrun | hdeep := run_item (endsBefore_comma h) [.member done key] (r ++ inner)
    · have hnext : run asm ⟨[.member done key], .value⟩ (item ++ ',' :: (r ++ inner))
          = run asm ⟨[], .nextKey ((key, v) :: done)⟩ (r ++ inner) := hrun
      rw [hnext]
      obtain ⟨first', done', s', hs', hfirst, hrest⟩ | hdeep := ih (.next ((key, v) :: done))
      · exact .inl ⟨first', done', s', hs', fun h => absurd (hfirst h).1 Bool.false_ne_true, hrest⟩
      · exact .inr hdeep
    · exact .inr hdeep

/-- Where there is no key, the reader stops at a key, unless the object is closed. -/
theorem run_noKey (hs : AtMember first done s) (h : NoKey text)
    (hclose : first = true → ¬ Closing text) :
    ∃ fault, run asm s text = .error ⟨[.key], fault⟩ := by
  obtain hws | ⟨ws, c, r, rfl, hws, hc⟩ := spaces_or text
  · rw [← List.append_nil text]
    cases hs with
    | first | next =>
      rw [run_skip hws (fun _ => rfl)]
      exact ⟨_, rfl⟩
  · by_cases hquote : c = '"'
    · subst hquote
      have hkey : ∃ fault, run asm ⟨[], .key done .start⟩ r = .error ⟨[.key], fault⟩ :=
        run_key_unclosed (unclosed_of_noKey hws h)
      cases hs with
      | first | next =>
        rw [run_skip hws (fun _ => rfl), run_cons]
        exact hkey
    · cases hs with
      | first =>
        have hbrace : c ≠ '\x7d' := by
          rintro rfl
          exact hclose rfl ⟨ws, r, rfl, hws⟩
        rw [run_skip hws (fun _ => rfl), run_cons, step.eq_def]
        simp only [hc, if_neg hquote, if_neg hbrace]
        exact ⟨_, rfl⟩
      | next =>
        rw [run_skip hws (fun _ => rfl), run_cons, step.eq_def]
        simp only [hc, if_neg hquote]
        split
        · rename_i hspace
          cases hspace
        · split
          · exact ⟨_, rfl⟩
          · exact ⟨_, rfl⟩

/-- **What stops at a key, stops there**, unless it is nested too deep. -/
theorem run_keyStop (hs : AtMember first done s) (h : KeyStop asm text)
    (hclose : first = true → ¬ Closing text) :
    (∃ fault, run asm s text = .error ⟨[.key], fault⟩)
      ∨ ∃ place, run asm s text = .error ⟨place, .tooDeep⟩ := by
  cases h with
  | missing h => exact .inl (run_noKey hs h hclose)
  | @cut name item key v hk h =>
    rw [run_keyText hk hs]
    cases run_over asm (over_start [.member done key]) item with
    | stuck f hf alone inside =>
      have hfalse := alone.symm.trans h
      cases hfalse
    | deep place inside => exact .inr ⟨place, inside⟩
    | done w alone inside =>
      rw [inside]
      exact .inl ⟨_, rfl⟩
    | past item' c rest w htext hc alone trailing inside =>
      have htrailing : readWith asm (item' ++ c :: rest) = _ := trailing rest
      rw [← htext, h] at htrailing
      cases htrailing
  | @behind name item r key c v hk h hcomma hbrace =>
    rw [run_keyText hk hs]
    obtain hrun | hdeep := run_item h [.member done key] r
    · refine .inl ⟨.expectedCommaOrBrace, ?_⟩
      have hstep : stepAfter asm [] (.member ((key, v) :: done)) c
          = .error ⟨[.key], .expectedCommaOrBrace⟩ := by
        rw [stepAfter.eq_def]
        simp only [h.space, if_neg hcomma, if_neg hbrace]
        rfl
      change _ = stepAfter asm [] (.member ((key, v) :: done)) c >>= (fun u => run asm u r) at hrun
      rw [hrun, hstep]
      rfl
    · exact .inr hdeep

theorem run_keyStops (hs : AtMember first done s) (h : KeyStops asm first text) :
    (∃ fault, run asm s text = .error ⟨[.key], fault⟩)
      ∨ ∃ place, run asm s text = .error ⟨place, .tooDeep⟩ := by
  obtain ⟨members, r, rfl, hm, hr, hclose⟩ := h
  obtain ⟨first', done', s', hs', hfirst, hrun⟩ | hdeep := run_members hm hs r
  · rw [hrun]
    exact run_keyStop hs' hr fun h => hclose (hfirst h).1 (hfirst h).2
  · exact .inr hdeep

/-! ### Where members stop -/

theorem stuck_colon {key : String} (h : run asm ⟨[], .colon done key⟩ text = .error f) :
    f.path = [] ∨ ∃ ws inner, text = ws ++ ':' :: inner ∧ Spaces ws
      ∧ run asm ⟨[.member done key], .value⟩ inner = .error f := by
  obtain hws | ⟨ws, c, r, rfl, hws, hc⟩ := spaces_or text
  · rw [← List.append_nil text, run_skip hws (fun _ => rfl)] at h
    cases h
    exact .inl rfl
  · rw [run_skip hws (fun _ => rfl), run_cons, step.eq_def, hc] at h
    dsimp only at h
    rw [if_neg (by decide)] at h
    split at h
    · rename_i hcolon
      subst hcolon
      exact .inr ⟨ws, r, rfl, hws, h⟩
    · cases h
      exact .inl rfl

/-- **Where a key stops**: at the key, which never ends, at the object behind it, or inside its
value. -/
theorem stuck_key (h : run asm ⟨[], .key done p⟩ text = .error f) :
    f.path = [] ∨ (f.path = [.key] ∧ Unclosed p text)
      ∨ ∃ body key inner, text = body ++ ':' :: inner
        ∧ run .tree ⟨[], .text p⟩ body = .ok (.string key)
        ∧ run asm ⟨[.member done key], .value⟩ inner = .error f := by
  induction text generalizing p with
  | nil =>
    cases h
    refine .inr (.inl ⟨rfl, fun body r key heq => ?_⟩)
    obtain ⟨rfl, -⟩ := List.append_eq_nil_iff.1 heq.symm
    exact nofun
  | cons c r ih =>
    rcases hp : p.extend c with fault | _ | q
    · rw [run_key_error hp] at h
      cases h
      refine .inr (.inl ⟨rfl, fun body r' key heq => ?_⟩)
      cases body with
      | nil => exact nofun
      | cons d body =>
        obtain ⟨rfl, -⟩ := List.cons.inj heq
        rw [run_text_error hp]
        exact nofun
    · rw [run_key_none hp] at h
      obtain hpath | ⟨ws, inner, rfl, hws, hinner⟩ := stuck_colon h
      · exact .inl hpath
      · exact .inr (.inr ⟨c :: ws, p.text, inner, rfl, run_text_closed hp hws, hinner⟩)
    · rw [run_key_some hp] at h
      obtain hpath | ⟨hpath, hopen⟩ | ⟨body, key, inner, rfl, hbody, hinner⟩ := ih h
      · exact .inl hpath
      · exact .inr (.inl ⟨hpath, (unclosed_cons hp).2 hopen⟩)
      · refine .inr (.inr ⟨c :: body, key, inner, rfl, ?_, hinner⟩)
        rw [run_text_some hp]
        exact hbody

theorem path_of_closeObject (h : closeObject asm [] done >>= (fun t => run asm t text) = .error f) :
    f.path = [] := by
  rw [closeObject] at h
  split at h
  · exact path_of_plain (.behind _) h
  · cases h
    rfl

theorem stuck_atMember (hs : AtMember first done s) (h : run asm s text = .error f) :
    f.path = [] ∨ (f.path = [.key] ∧ NoKey text ∧ (first = true → ¬ Closing text))
      ∨ ∃ name key inner, text = name ++ ':' :: inner
        ∧ KeyText name key ∧ run asm ⟨[.member done key], .value⟩ inner = .error f := by
  obtain hws | ⟨ws, c, r, rfl, hws, hc⟩ := spaces_or text
  · have hpath : f.path = [.key] := by
      rw [← List.append_nil text] at h
      cases hs with
      | first | next =>
        rw [run_skip hws (fun _ => rfl)] at h
        cases h
        rfl
    exact .inr (.inl ⟨hpath, noKey_spaces hws, fun _ => not_closing_spaces hws⟩)
  · by_cases hquote : c = '"'
    · subst hquote
      have hkey : run asm ⟨[], .key done .start⟩ r = .error f := by
        cases hs with
        | first | next =>
          rw [run_skip hws (fun _ => rfl), run_cons] at h
          exact h
      obtain hpath | ⟨hpath, hopen⟩ | ⟨body, key, inner, rfl, hbody, hinner⟩ := stuck_key hkey
      · exact .inl hpath
      · exact .inr (.inl ⟨hpath, noKey_of_unclosed hws hopen,
          fun _ => not_closing_of_ne hws hc (by decide)⟩)
      · refine .inr (.inr ⟨ws ++ '"' :: body, key, inner, ?_, ⟨⟨ws, body, rfl, hws⟩, ?_⟩, hinner⟩)
        · rw [List.append_assoc, List.cons_append]
        · exact (run_start_skip .tree hws _).trans hbody
    · have hnone : NoKey (ws ++ c :: r) := noKey_of_ne hws hc hquote
      cases hs with
      | first =>
        rw [run_skip hws (fun _ => rfl), run_cons, step.eq_def, hc] at h
        dsimp only at h
        rw [if_neg (by decide), if_neg hquote] at h
        split at h
        · exact .inl (path_of_closeObject h)
        · rename_i hbrace
          cases h
          exact .inr (.inl ⟨rfl, hnone, fun _ => not_closing_of_ne hws hc hbrace⟩)
      | next =>
        rw [run_skip hws (fun _ => rfl), run_cons, step.eq_def, hc] at h
        dsimp only at h
        rw [if_neg (by decide), if_neg hquote] at h
        split at h
        · cases h
          exact .inr (.inl ⟨rfl, hnone, fun hfirst => absurd hfirst Bool.false_ne_true⟩)
        · cases h
          exact .inr (.inl ⟨rfl, hnone, fun hfirst => absurd hfirst Bool.false_ne_true⟩)

/-- **Where members stop**: at the object itself, at a key, or inside a member that begins behind
others. -/
theorem stuck_members (hs : AtMember first done s) (h : run asm s text = .error f)
    (hf : f.fault ≠ .tooDeep) :
    f.path = [] ∨ (f.path = [.key] ∧ KeyStops asm first text)
      ∨ ∃ members name key inner g, text = members ++ (name ++ ':' :: inner)
        ∧ Members asm members ∧ KeyText name key ∧ readWith asm inner = .error g
        ∧ f = ⟨.member key :: g.path, g.fault⟩ := by
  induction hn : text.length using Nat.strongRecOn generalizing text first done s with
  | ind n ih =>
    subst hn
    obtain hpath | ⟨hpath, hnone, hclose⟩ | ⟨name, key, inner, rfl, hk, hinner⟩ :=
      stuck_atMember hs h
    · exact .inl hpath
    · exact .inr (.inl ⟨hpath, [], text, rfl, .nil, .missing hnone, fun hfirst _ => hclose hfirst⟩)
    · have hopen {r : List Char} : ¬ Closing (name ++ ':' :: r) := by
        obtain ⟨⟨ws, body, rfl, hws⟩, -⟩ := hk
        rw [List.append_assoc, List.cons_append]
        exact not_closing_of_ne hws rfl (by decide)
      obtain ⟨g, hg, rfl⟩ | ⟨v, hv, hend⟩ | ⟨item, c, rest, v, rfl, hitem, hafter⟩ :=
        stuck_inside hinner hf
      · exact .inr (.inr ⟨[], name, key, inner, g, rfl, .nil, hk, hg, rfl⟩)
      · cases hend
        exact .inr (.inl ⟨rfl, [], _, rfl, .nil, .cut hk hv, fun _ _ => hopen⟩)
      · change stepAfter asm [] (.member ((key, v) :: done)) c >>= (fun u => run asm u rest)
          = .error f at hafter
        rw [stepAfter.eq_def, hitem.space] at hafter
        dsimp only at hafter
        rw [if_neg (by decide)] at hafter
        split at hafter
        · rename_i hcomma
          subst hcomma
          have hshort : rest.length < (name ++ ':' :: (item ++ ',' :: rest)).length := by
            simp only [List.length_append, List.length_cons]
            omega
          obtain hpath | ⟨hpath, members, r, rfl, hm, hr, -⟩
              | ⟨members, name', key', inner', g, rfl, hm, hk', hg, rfl⟩ :=
            ih rest.length hshort (.next ((key, v) :: done)) hafter rfl
          · exact .inl hpath
          · refine .inr (.inl ⟨hpath, name ++ ':' :: (item ++ ',' :: members), r, by simp,
              .cons hk hitem.value hm, hr, fun _ hnil => ?_⟩)
            simp at hnil
          · refine .inr (.inr ⟨name ++ ':' :: (item ++ ',' :: members), name', key', inner', g,
              by simp, .cons hk hitem.value hm, hk', hg, rfl⟩)
        · rename_i hcomma
          split at hafter
          · exact .inl (path_of_closeObject hafter)
          · rename_i hbrace
            cases hafter
            exact .inr (.inl ⟨rfl, [], _, rfl, .nil, .behind hk hitem hcomma hbrace,
              fun _ _ => hopen⟩)

end State

end QueryScribe.Json
