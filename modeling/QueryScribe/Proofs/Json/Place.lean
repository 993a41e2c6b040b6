import QueryScribe.Proofs.Json.Keys
import QueryScribe.Query

/-!
# The place of a failure

A failure has a place: the indices and keys on the way from the root.  Where it is found and what
the message makes of it are told apart here.

* `exists_leads`: what fails in a text fails by itself, at the end of a way.  There it is an object
  that stops at a key (`StopsAtKey`), or it fails at its own root; the place is the way and this.
* `Leads.fails`: what fails by itself at the end of a way fails in the text too, unless nesting
  that is too deep comes before it.
* `exists_bracket`: of two brackets in the same place, one may be too deep and the other not.  The
  place of nesting too deep is that of any other character which starts no value.
* `renderPath_eq_point`: the message leaves out a place in words that is a point.  That is the root,
  but also the value of the key that is a point, and that of the empty key in the empty key.
-/

namespace QueryScribe.Json

open QueryScribe.Outcome

variable {α : Type} {asm : Assembly α} {text : List Char} {f : Failure}

/-! ### Failures at the end of a way -/

theorem readWith_bracket {ws : List Char} (hws : Spaces ws) (r : List Char) :
    readWith asm (ws ++ '[' :: r) = State.run asm ⟨[], .firstElement⟩ r := by
  have hroom : ([] : List (Frame α)).length < 127 := Nat.zero_lt_succ _
  show State.run asm State.start _ = _
  rw [State.run_start_skip asm hws, State.run_start_cons rfl, stepValue_bracket hroom, ok_bind]

theorem readWith_brace {ws : List Char} (hws : Spaces ws) (r : List Char) :
    readWith asm (ws ++ '\x7b' :: r) = State.run asm ⟨[], .firstKey⟩ r := by
  have hroom : ([] : List (Frame α)).length < 127 := Nat.zero_lt_succ _
  show State.run asm State.start _ = _
  rw [State.run_start_skip asm hws, State.run_start_cons rfl, stepValue_brace hroom, ok_bind]

/-- An object in which a member stops at a key. -/
def StopsAtKey (asm : Assembly α) (text : List Char) : Prop :=
  ∃ ws r, text = ws ++ '\x7b' :: r ∧ Spaces ws ∧ KeyStops asm true r

theorem StopsAtKey.fails (h : StopsAtKey asm text) :
    (∃ fault, readWith asm text = .error ⟨[.key], fault⟩)
      ∨ ∃ place, readWith asm text = .error ⟨place, .tooDeep⟩ := by
  obtain ⟨ws, r, rfl, hws, hr⟩ := h
  rw [readWith_brace hws]
  exact State.run_keyStops .first hr

/-- A text that fails by itself: at a key, if it stops at one, or else at its root. -/
inductive Broken (asm : Assembly α) (text : List Char) : Failure → Prop
  | root {fault : Fault} (hkey : ¬ StopsAtKey asm text)
      (h : readWith asm text = .error ⟨[], fault⟩) : Broken asm text ⟨[], fault⟩
  | key {fault : Fault} (hkey : StopsAtKey asm text)
      (h : readWith asm text = .error ⟨[.key], fault⟩) : Broken asm text ⟨[.key], fault⟩

theorem Broken.of_path (h : readWith asm text = .error f) (hf : f.fault ≠ .tooDeep)
    (hpath : f.path = []) : Broken asm text ⟨[], f.fault⟩ := by
  obtain ⟨path, fault⟩ := f
  obtain rfl : path = [] := hpath
  refine .root (fun hkey => ?_) h
  obtain ⟨other, hfails⟩ | ⟨place, hdeep⟩ := hkey.fails
  · rw [h] at hfails
    cases hfails
  · rw [h] at hdeep
    cases hdeep
    exact hf rfl

/-- What fails neither in an array nor in an object fails at the root. -/
theorem path_of_readWith {ws : List Char} {c : Char} {r : List Char} (hws : Spaces ws)
    (hc : State.isSpace c = false) (hbracket : c ≠ '[') (hbrace : c ≠ '\x7b')
    (h : readWith asm (ws ++ c :: r) = .error f) : f.path = [] := by
  have hrun : State.run asm State.start (ws ++ c :: r) = .error f := h
  rw [State.run_start_skip asm hws, State.run_start_cons hc] at hrun
  exact State.path_of_stepValue hbracket hbrace hrun

/-- **What fails, fails by itself at the end of a way**, by induction on the length of the text:
inside a container, the text of the element or of the value is shorter. -/
theorem exists_leads (h : readWith asm text = .error f) (hf : f.fault ≠ .tooDeep) :
    ∃ way rest tail, Leads asm text way rest ∧ Broken asm rest ⟨tail, f.fault⟩
      ∧ f.path = way ++ tail := by
  induction hn : text.length using Nat.strongRecOn generalizing text f with
  | ind n ih =>
    subst hn
    have hroot (hpath : f.path = []) : ∃ way rest tail, Leads asm text way rest
        ∧ Broken asm rest ⟨tail, f.fault⟩ ∧ f.path = way ++ tail :=
      ⟨[], text, [], .here text, .of_path h hf hpath, hpath⟩
    obtain hws | ⟨ws, c, r, rfl, hws, hc⟩ := spaces_or text
    · have hempty : readWith asm text = readWith asm [] := by
        rw [← List.append_nil text]
        exact State.run_start_skip asm hws []
      rw [hempty] at h
      cases h
      exact hroot rfl
    · by_cases hbracket : c = '['
      · subst hbracket
        rw [readWith_bracket hws] at h
        obtain hpath | ⟨items, n, inner, g, rfl, hi, hb, hg, rfl⟩ :=
          State.stuck_elements .first h hf
        · exact hroot hpath
        · have hshort : inner.length < (ws ++ '[' :: (items ++ inner)).length := by
            simp only [List.length_append, List.length_cons]
            omega
          obtain ⟨way, rest, tail, hl, hbroken, hpath⟩ := ih _ hshort hg hf rfl
          rw [List.length_nil, Nat.zero_add]
          refine ⟨.index n :: way, rest, tail, .element hws hi hb hl, hbroken, ?_⟩
          rw [hpath, List.cons_append]
      · by_cases hbrace : c = '\x7b'
        · subst hbrace
          have hobject := h
          rw [readWith_brace hws] at h
          obtain hpath | ⟨hpath, hkey⟩ | ⟨members, name, key, inner, g, rfl, hm, hk, hg, rfl⟩ :=
            State.stuck_members .first h hf
          · exact hroot hpath
          · obtain ⟨path, fault⟩ := f
            obtain rfl : path = [.key] := hpath
            exact ⟨[], _, [.key], .here _, .key ⟨ws, r, rfl, hws, hkey⟩ hobject, rfl⟩
          · have hshort : inner.length
                < (ws ++ '\x7b' :: (members ++ (name ++ ':' :: inner))).length := by
              simp only [List.length_append, List.length_cons]
              omega
            obtain ⟨way, rest, tail, hl, hbroken, hpath⟩ := ih _ hshort hg hf rfl
            refine ⟨.member key :: way, rest, tail, .member hws hm hk hl, hbroken, ?_⟩
            rw [hpath, List.cons_append]
        · exact hroot (path_of_readWith hws hc hbracket hbrace h)

theorem fails_element {ws items inner : List Char} {n : Nat} {g : Failure} (hws : Spaces ws)
    (hi : Elements asm items n) (hb : Begun inner) (h : readWith asm inner = .error g)
    (hg : g.fault ≠ .trailingCharacters) :
    readWith asm (ws ++ '[' :: (items ++ inner)) = .error ⟨.index n :: g.path, g.fault⟩
      ∨ ∃ place, readWith asm (ws ++ '[' :: (items ++ inner)) = .error ⟨place, .tooDeep⟩ := by
  rw [readWith_bracket hws]
  obtain ⟨done, s, hs, hlen, hrun⟩ | hdeep := State.run_elements hi .first inner
  · rw [hrun, State.run_atElement hs hb]
    obtain rfl : done.length = n := by rw [hlen, List.length_nil, Nat.zero_add]
    exact State.run_inside h hg [.element done]
  · exact .inr hdeep

theorem fails_member {ws members name inner : List Char} {key : String} {g : Failure}
    (hws : Spaces ws) (hm : Members asm members) (hk : KeyText name key)
    (h : readWith asm inner = .error g) (hg : g.fault ≠ .trailingCharacters) :
    readWith asm (ws ++ '\x7b' :: (members ++ (name ++ ':' :: inner)))
        = .error ⟨.member key :: g.path, g.fault⟩
      ∨ ∃ place, readWith asm (ws ++ '\x7b' :: (members ++ (name ++ ':' :: inner)))
        = .error ⟨place, .tooDeep⟩ := by
  rw [readWith_brace hws]
  obtain ⟨first, done, s, hs, -, hrun⟩ | hdeep := State.run_members hm .first (name ++ ':' :: inner)
  · rw [hrun, State.run_keyText hk hs]
    exact State.run_inside h hg [.member done key]
  · exact .inr hdeep

/-- **What fails by itself at the end of a way fails in the text**, at the place that begins with
the way, unless something is nested too deep. -/
theorem Leads.fails {way : List Segment} {rest : List Char} (hl : Leads asm text way rest)
    (h : readWith asm rest = .error f) (hf : f.fault ≠ .trailingCharacters) :
    readWith asm text = .error ⟨way ++ f.path, f.fault⟩
      ∨ ∃ place, readWith asm text = .error ⟨place, .tooDeep⟩ := by
  induction hl with
  | here text => exact .inl h
  | element hws hi hb _ ih =>
    obtain hinner | ⟨place, hdeep⟩ := ih h
    · exact fails_element hws hi hb hinner hf
    · obtain hhere | helse := fails_element hws hi hb hdeep nofun
      · exact .inr ⟨_, hhere⟩
      · exact .inr helse
  | member hws hm hk _ ih =>
    obtain hinner | ⟨place, hdeep⟩ := ih h
    · exact fails_member hws hm hk hinner hf
    · obtain hhere | helse := fails_member hws hm hk hdeep nofun
      · exact .inr ⟨_, hhere⟩
      · exact .inr helse

/-- Text after the value is a failure of the whole text. -/
theorem path_of_trailing (h : readWith asm text = .error f) (hf : f.fault = .trailingCharacters) :
    f.path = [] := by
  have hrun : State.run asm State.start text = .error f := h
  cases State.run_over asm (State.over_start []) text with
  | stuck g hg alone inside =>
    rw [alone] at hrun
    cases hrun
    exact absurd hf hg
  | deep place inside =>
    have hdeep := inside.symm.trans hrun
    cases hdeep
    cases hf
  | done v alone inside =>
    rw [alone] at hrun
    cases hrun
  | past item c rest v htext hc alone trailing inside =>
    rw [htext, trailing rest] at hrun
    cases hrun
    rfl

/-! ### Nesting too deep -/

namespace State

variable {s : State α} {c : Char} {stack : List (Frame α)}

/-- A bracket that opens one container too many, in a place where any other character that starts
no value is one. -/
def TooDeep (c : Char) (f : Failure) (other : Except Failure (State α)) : Prop :=
  (c = '[' ∨ c = '\x7b') ∧ 127 ≤ f.path.length ∧ other = .error ⟨f.path, .expectedValue⟩

theorem length_path (stack : List (Frame α)) : (path stack).length = stack.length := by
  simp [path]

theorem tooDeep_stepValue (h : stepValue asm stack c = .error f) (hf : f.fault = .tooDeep) :
    TooDeep c f (stepValue asm stack '?') := by
  have hlow (hlen : 127 ≤ stack.length) : 127 ≤ (path stack).length := by rwa [length_path]
  rw [stepValue] at h
  split at h
  · cases h
  split at h
  · rename_i hbracket
    split at h
    · cases h
      exact ⟨.inl hbracket, hlow ‹_›, rfl⟩
    · cases h
  split at h
  · rename_i hbrace
    split at h
    · cases h
      exact ⟨.inr hbrace, hlow ‹_›, rfl⟩
    · cases h
  split at h
  · cases h
  split at h
  · cases h
  split at h
  · cases h
  split at h
  · cases h
  · cases h
    cases hf

theorem fault_of_closeObject {done : List (String × α)}
    (h : closeObject asm stack done = .error f) : f.fault ≠ .tooDeep := by
  intro hf
  rw [closeObject] at h
  split at h
  · cases h
  · cases h
    cases hf

theorem fault_of_stepAfter {after : After α} (h : stepAfter asm stack after c = .error f) :
    f.fault ≠ .tooDeep := by
  intro hf
  rw [stepAfter.eq_def] at h
  split at h
  · cases h
  cases after with
  | root v =>
    cases h
    cases hf
  | element done =>
    dsimp only at h
    split_ifs at h
    cases h
    cases hf
  | member done =>
    dsimp only at h
    split_ifs at h
    · exact fault_of_closeObject h hf
    · cases h
      cases hf

/-- Only a character that starts a value is too deep. -/
theorem tooDeep_step (h : step asm s c = .error f) (hf : f.fault = .tooDeep) :
    TooDeep c f (step asm s '?') := by
  obtain ⟨stack, mode⟩ := s
  rw [step.eq_def] at h
  cases mode with
  | value =>
    dsimp only at h
    split_ifs at h
    exact tooDeep_stepValue h hf
  | firstElement =>
    dsimp only at h
    split_ifs at h
    exact tooDeep_stepValue h hf
  | nextElement done =>
    dsimp only at h
    split_ifs at h
    · cases h
      cases hf
    · exact tooDeep_stepValue h hf
  | firstKey =>
    dsimp only at h
    split_ifs at h
    · exact absurd hf (fault_of_closeObject h)
    · cases h
      cases hf
  | nextKey done =>
    dsimp only at h
    split_ifs at h
    · cases h
      cases hf
    · cases h
      cases hf
  | key done p =>
    dsimp only at h
    rcases hp : p.extend c with fault | _ | q
    · rw [hp] at h
      cases h
      rcases Partial.fault_of_extend hp with rfl | rfl | rfl | rfl <;> cases hf
    · rw [hp] at h
      cases h
    · rw [hp] at h
      cases h
  | colon done key =>
    dsimp only at h
    split_ifs at h
    cases h
    cases hf
  | word left v =>
    cases left with
    | nil => exact absurd hf (fault_of_stepAfter h)
    | cons d r =>
      dsimp only at h
      split_ifs at h
      cases h
      cases hf
  | numeral n =>
    dsimp only at h
    rcases hn : n.extend c with fault | _ | m
    · rw [hn] at h
      cases h
      rw [Numeral.fault_of_extend hn] at hf
      cases hf
    · rw [hn] at h
      dsimp only at h
      rcases hm : n.close with fault | m
      · rw [hm] at h
        cases h
        rcases Numeral.fault_of_close hm with rfl | rfl <;> cases hf
      · rw [hm] at h
        exact absurd hf (fault_of_stepAfter h)
    · rw [hn] at h
      cases h
  | text p =>
    dsimp only at h
    rcases hp : p.extend c with fault | _ | q
    · rw [hp] at h
      cases h
      rcases Partial.fault_of_extend hp with rfl | rfl | rfl | rfl <;> cases hf
    · rw [hp] at h
      cases h
    · rw [hp] at h
      cases h
  | after after => exact absurd hf (fault_of_stepAfter h)

/-- The end of a text is not too deep. -/
theorem fault_of_finish (h : finish asm s = .error f) : f.fault ≠ .tooDeep := by
  intro hf
  obtain ⟨stack, mode⟩ := s
  have hafter {stack : List (Frame α)} {after : After α}
      (h : finishAfter stack after = .error f) : False := by
    cases after with
    | root v => cases h
    | element done | member done =>
      cases h
      cases hf
  rw [finish.eq_def] at h
  cases mode with
  | numeral n =>
    dsimp only at h
    rcases hm : n.close with fault | m
    · rw [hm] at h
      cases h
      rcases Numeral.fault_of_close hm with rfl | rfl <;> cases hf
    · rw [hm] at h
      exact hafter h
  | after after => exact hafter h
  | value | firstElement | nextElement | firstKey | nextKey | key | colon | word | text =>
    cases h
    cases hf

end State

/-- **Nesting too deep**: a bracket in a place where anything else that starts no value would be
an unexpected character. -/
theorem State.exists_bracket {s : State α} (h : run asm s text = .error f)
    (hf : f.fault = .tooDeep) :
    127 ≤ f.path.length ∧ ∃ before c after, text = before ++ c :: after ∧ (c = '[' ∨ c = '\x7b')
      ∧ ∀ after', run asm s (before ++ '?' :: after') = .error ⟨f.path, .expectedValue⟩ := by
  induction text generalizing s with
  | nil => exact absurd hf (fault_of_finish h)
  | cons c r ih =>
    rw [run_cons] at h
    rcases hstep : step asm s c with g | t
    · rw [hstep] at h
      cases h
      obtain ⟨hc, hlen, hother⟩ := tooDeep_step hstep hf
      refine ⟨hlen, [], c, r, rfl, hc, fun after' => ?_⟩
      rw [List.nil_append, run_cons, hother]
      rfl
    · rw [hstep] at h
      obtain ⟨hlen, before, d, after, rfl, hd, hother⟩ := ih h
      refine ⟨hlen, c :: before, d, after, rfl, hd, fun after' => ?_⟩
      rw [List.cons_append, run_cons, hstep]
      exact hother after'

/-! ### Places in words -/

/-- A place that is a point in words: the root, or one of two places that are not. -/
def LooksLikeRoot (path : List Segment) : Prop :=
  path = [] ∨ path = [.member "."] ∨ path = [.member "", .member ""]

theorem flatMap_renderNext_eq_nil {path : List Segment}
    (h : path.flatMap Segment.renderNext = []) : path = [] := by
  cases path with
  | nil => rfl
  | cons s r =>
    rw [List.flatMap_cons, List.append_eq_nil_iff] at h
    cases s with
    | index i | member name | key => exact absurd h.1 (List.cons_ne_nil _ _)

/-- Steps behind another one that are a point in words are one step, into an empty key. -/
theorem flatMap_renderNext_eq_point {path : List Segment}
    (h : path.flatMap Segment.renderNext = ['.']) : path = [.member ""] := by
  cases path with
  | nil => cases h
  | cons s r =>
    rw [List.flatMap_cons] at h
    cases s with
    | index i => cases h
    | key => cases h
    | member name =>
      have hrest : name.toList ++ r.flatMap Segment.renderNext = [] := (List.cons.inj h).2
      obtain ⟨hname, hr⟩ := List.append_eq_nil_iff.1 hrest
      obtain rfl : name = "" := String.toList_inj.1 hname
      rw [flatMap_renderNext_eq_nil hr]

/-- **The places that are a point in words.** -/
theorem renderPath_eq_point {path : List Segment} :
    renderPath path = ['.'] ↔ LooksLikeRoot path := by
  constructor
  · intro h
    cases path with
    | nil => exact .inl rfl
    | cons s r =>
      rw [renderPath] at h
      cases s with
      | index i => cases h
      | key => cases h
      | member name =>
        have hname : name.toList ++ r.flatMap Segment.renderNext = ['.'] := h
        rw [List.append_eq_singleton_iff] at hname
        obtain ⟨hempty, hpoint⟩ | ⟨hpoint, hnone⟩ := hname
        · obtain rfl : name = "" := String.toList_inj.1 hempty
          rw [flatMap_renderNext_eq_point hpoint]
          exact .inr (.inr rfl)
        · obtain rfl : name = "." := String.toList_inj.1 hpoint
          rw [flatMap_renderNext_eq_nil hnone]
          exact .inr (.inl rfl)
  · rintro (rfl | rfl | rfl) <;> rfl

/-- What a message begins with when it names the place. -/
def placeMark : String := "at JSON path "

/-- No fault in words begins like the name of a place. -/
theorem not_placeMark_message (fault : Fault) : ¬ placeMark.toList <+: fault.message.toList := by
  cases fault <;> decide

theorem Failure.message_of_looksLikeRoot (h : LooksLikeRoot f.path) :
    f.message = f.fault.message := if_pos (renderPath_eq_point.2 h)

theorem Failure.message_of_not_looksLikeRoot (h : ¬ LooksLikeRoot f.path) :
    f.message = placeMark ++ String.ofList (renderPath f.path) ++ " → " ++ f.fault.message :=
  if_neg fun hpoint => h (renderPath_eq_point.1 hpoint)

/-- **Where a reading fails.** -/
structure FailsAt (asm : Assembly α) (text : List Char) (f : Failure) : Prop where
  /-- The text fails by itself at the end of a way, which is the place. -/
  way : f.fault ≠ .tooDeep → ∃ way rest tail, Leads asm text way rest
    ∧ Broken asm rest ⟨tail, f.fault⟩ ∧ f.path = way ++ tail
  /-- There is no other place where it fails by itself. -/
  only : f.fault ≠ .tooDeep → ∀ way rest g, Leads asm text way rest → readWith asm rest = .error g →
    g.fault ≠ .trailingCharacters → f = ⟨way ++ g.path, g.fault⟩
  /-- What is nested too deep is a bracket, and in its place another character is a failure too. -/
  deep : f.fault = .tooDeep → 127 ≤ f.path.length ∧ ∃ before c after, text = before ++ c :: after
    ∧ (c = '[' ∨ c = '\x7b')
    ∧ ∀ after', readWith asm (before ++ '?' :: after') = .error ⟨f.path, .expectedValue⟩
  /-- Text after the value is a failure of the whole text. -/
  trailing : f.fault = .trailingCharacters → f.path = []

theorem failsAt (h : readWith asm text = .error f) : FailsAt asm text f where
  way := exists_leads h
  only := by
    intro hf way rest g hl hg htrailing
    obtain hfails | ⟨place, hdeep⟩ := hl.fails hg htrailing
    · rw [h] at hfails
      exact Except.error.inj hfails
    · rw [h] at hdeep
      cases hdeep
      exact absurd rfl hf
  deep := State.exists_bracket h
  trailing := path_of_trailing h

end QueryScribe.Json

namespace QueryScribe.Value

open QueryScribe.Json

/-- **The message of a text that cannot be read names the place of the failure**, unless the place
is a point in words.  That is so of the root, of the value of the key that is a point, and of the
value of an empty key in the value of an empty key. -/
theorem failure_names_place {text : String} {e : QueryError} (h : readValue text = .error e) :
    ∃ f, e = .malformed f ∧ FailsAt assembly text.toList f
      ∧ (¬ LooksLikeRoot f.path → f.message
        = placeMark ++ String.ofList (renderPath f.path) ++ " → " ++ f.fault.message)
      ∧ (LooksLikeRoot f.path →
        f.message = f.fault.message ∧ ¬ placeMark.toList <+: f.message.toList) := by
  rw [readValue, ofText, Value.read] at h
  rcases hread : readWith assembly text.toList with f | v
  · rw [hread] at h
    cases h
    refine ⟨f, rfl, failsAt hread, Failure.message_of_not_looksLikeRoot, ?_⟩
    intro hroot
    rw [Failure.message_of_looksLikeRoot hroot]
    exact ⟨rfl, not_placeMark_message f.fault⟩
  · rw [hread] at h
    cases h

/-- A word that is cut short, in a stage of a pipeline. -/
theorem failure_names_place_match :
    readValue "[\x7b\"$match\": \x7b\"a\": tru\x7d\x7d]"
        = .error (.malformed ⟨[.index 0, .member "$match", .member "a"], .expectedIdentifier⟩)
      ∧ (⟨[.index 0, .member "$match", .member "a"], .expectedIdentifier⟩ : Failure).message
        = "at JSON path [0].$match.a → expected ident" := by
  have h : readValue "[\x7b\"$match\": \x7b\"a\": tru\x7d\x7d]"
      = .error (.malformed ⟨[.index 0, .member "$match", .member "a"], .expectedIdentifier⟩) := rfl
  obtain ⟨f, hf, -, hplaced, -⟩ := failure_names_place h
  obtain rfl := QueryError.malformed.inj hf
  have hbelow : ¬ LooksLikeRoot [.index 0, .member "$match", .member "a"] := by
    rintro (hroot | hroot | hroot) <;> cases hroot
  exact ⟨h, hplaced hbelow⟩

/-- A word that is cut short below the root, in the key that is a point. -/
theorem failure_unplaced_point :
    ∃ f, readValue "\x7b\".\": tru\x7d" = .error (.malformed f) ∧ f.path ≠ []
      ∧ f.fault ≠ .trailingCharacters ∧ f.message = "expected ident"
      ∧ ¬ placeMark.toList <+: f.message.toList :=
  ⟨⟨[.member "."], .expectedIdentifier⟩, rfl, nofun, nofun, rfl, by decide⟩

end QueryScribe.Value
