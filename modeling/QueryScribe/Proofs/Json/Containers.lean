import QueryScribe.Proofs.Json.Reading

/-!
# Reading inside containers

What stands inside open containers is read as if it stood alone.  A fault in it is the
same fault, at a place that begins with the way to the containers, and at its end the reader is
where the value has been put into the innermost container.  Two things are different.  There is
less room for nesting, and what follows the value is not trailing text but goes on with the
container.

The reader of the text alone and the reader inside the containers run side by side: their stacks
differ by the containers below (`State.Over`).  One character keeps that, or it ends both readings
in one of these ways (`State.beside_step`), and so does a text (`State.run_over`).
-/

namespace QueryScribe.Json

variable {α : Type} {asm : Assembly α}

/-- The reader is in the middle of something: not behind the root, and not at the end of a word. -/
def Mode.Inner : Mode α → Prop
  | .after (.root _) | .word [] _ => False
  | _ => True

/-! ### Faults of the pieces -/

theorem Numeral.fault_of_extend {n : Numeral} {c : Char} {fault : Fault}
    (h : n.extend c = .error fault) : fault = .invalidNumber := by
  unfold extend at h
  split at h <;> split_ifs at h <;> cases h <;> rfl

theorem Numeral.fault_of_close {n : Numeral} {fault : Fault} (h : n.close = .error fault) :
    fault = .endOfValue ∨ fault = .numberOutOfRange := by
  have hdouble (h : n.double? = .error fault) : fault = .numberOutOfRange := by
    unfold double? at h
    dsimp only at h
    split at h <;> cases h
    rfl
  unfold close at h
  split at h
  · split_ifs at h
    · exact .inr (hdouble h)
    · exact .inr (hdouble h)
  · split_ifs at h
    · exact .inr (hdouble h)
    · exact .inr (hdouble h)
  · exact .inr (hdouble h)
  · exact .inr (hdouble h)
  · cases h
    exact .inl rfl

theorem Partial.fault_of_pushUnit {p : Partial} {high : Option Nat} {unit : Nat} {fault : Fault}
    (h : p.pushUnit high unit = .error fault) : fault = .loneSurrogate := by
  unfold pushUnit at h
  split at h <;> split_ifs at h <;> cases h <;> rfl

theorem Partial.fault_of_extend {p : Partial} {c : Char} {fault : Fault}
    (h : p.extend c = .error fault) :
    fault = .controlCharacter ∨ fault = .invalidEscape ∨ fault = .loneSurrogate
      ∨ fault = .unpairedSurrogate := by
  unfold extend at h
  split at h
  · split_ifs at h
    cases h
    exact .inl rfl
  · split_ifs at h
    split at h <;> cases h
    exact .inr (.inl rfl)
  · dsimp only at h
    split_ifs at h
    split at h
    · rw [Outcome.map_eq_error] at h
      exact .inr (.inr (.inl (fault_of_pushUnit h)))
    · cases h
      exact .inr (.inl rfl)
  · split_ifs at h
    cases h
    exact .inr (.inr (.inr rfl))
  · split_ifs at h
    cases h
    exact .inr (.inr (.inr rfl))

namespace State

/-! ### Two readers side by side -/

/-- What comes of a text from a state on. -/
def run (asm : Assembly α) (s : State α) (text : List Char) : Except Failure α :=
  (text.foldlM (step asm) s).bind (finish asm)

theorem run_nil (s : State α) : run asm s [] = finish asm s := rfl

theorem run_cons (s : State α) (c : Char) (r : List Char) :
    run asm s (c :: r) = step asm s c >>= fun t => run asm t r := by
  rw [run, List.foldlM_cons]
  cases step asm s c <;> rfl

variable {base stack : List (Frame α)} {s t : State α} {c : Char}

/-- The second state is the first one inside containers. -/
inductive Over (base : List (Frame α)) : State α → State α → Prop
  | inside (stack : List (Frame α)) {mode : Mode α} (h : mode.Inner) :
      Over base ⟨stack, mode⟩ ⟨stack ++ base, mode⟩
  | behind (v : α) : Over base (settle v []) (settle v base)

/-- What comes of one character alone and inside containers. -/
inductive Beside (asm : Assembly α) (base : List (Frame α)) (s : State α) (c : Char) :
    Except Failure (State α) → Except Failure (State α) → Prop
  | next {s' t' : State α} (h : Over base s' t') : Beside asm base s c (.ok s') (.ok t')
  | fail {f : Failure} (hf : f.fault ≠ .trailingCharacters) :
      Beside asm base s c (.error f) (.error ⟨path base ++ f.path, f.fault⟩)
  | deep (x : Except Failure (State α)) (place : List Segment) :
      Beside asm base s c x (.error ⟨place, .tooDeep⟩)
  | past {v : α} (hc : isSpace c = false) (hv : finish asm s = .ok v) :
      Beside asm base s c (.error ⟨[], .trailingCharacters⟩)
        (stepAfter asm (complete v base).1 (complete v base).2 c)

theorem Beside.ite {p : Prop} [Decidable p] {x x' y y' : Except Failure (State α)}
    (h : p → Beside asm base s c x y) (h' : ¬ p → Beside asm base s c x' y') :
    Beside asm base s c (if p then x else x') (if p then y else y') := by
  split
  · exact h ‹_›
  · exact h' ‹_›

theorem path_append (stack base : List (Frame α)) :
    path (stack ++ base) = path base ++ path stack := by
  simp [path]

theorem beside_fail (stack : List (Frame α)) {fault : Fault} (h : fault ≠ .trailingCharacters) :
    Beside asm base s c (fail stack fault) (fail (stack ++ base) fault) := by
  rw [fail, fail, path_append]
  exact @Beside.fail _ _ _ _ _ ⟨path stack, fault⟩ h

theorem beside_failAtKey (stack : List (Frame α)) {fault : Fault}
    (h : fault ≠ .trailingCharacters) :
    Beside asm base s c (failAtKey stack fault) (failAtKey (stack ++ base) fault) := by
  rw [failAtKey, failAtKey, path_append, List.append_assoc]
  exact @Beside.fail _ _ _ _ _ ⟨path stack ++ [.key], fault⟩ h

theorem over_settle (v : α) (stack base : List (Frame α)) :
    Over base (settle v stack) (settle v (stack ++ base)) := by
  match stack with
  | [] => exact .behind v
  | .element done :: r => exact .inside r trivial
  | .member done key :: r => exact .inside r trivial

theorem beside_closeObject (stack : List (Frame α)) (done : List (String × α)) :
    Beside asm base s c (closeObject asm stack done) (closeObject asm (stack ++ base) done) := by
  rw [closeObject, closeObject]
  split
  · exact .next (over_settle _ stack base)
  · exact beside_fail stack (by decide)

/-- Inside containers there is less room for a container. -/
theorem beside_open (stack : List (Frame α)) {mode : Mode α} (h : mode.Inner) :
    Beside asm base s c
      (if 127 ≤ stack.length then fail stack .tooDeep else .ok ⟨stack, mode⟩)
      (if 127 ≤ (stack ++ base).length then fail (stack ++ base) .tooDeep
        else .ok ⟨stack ++ base, mode⟩) := by
  split
  · split
    · exact beside_fail stack (by decide)
    · rename_i hlow hhigh
      rw [List.length_append] at hhigh
      omega
  · split
    · exact .deep _ _
    · exact .next (.inside stack h)

theorem beside_stepValue (stack : List (Frame α)) :
    Beside asm base s c (stepValue asm stack c) (stepValue asm (stack ++ base) c) := by
  rw [stepValue, stepValue]
  refine .ite (fun _ => .next (.inside stack trivial)) fun _ => ?_
  refine .ite (fun _ => beside_open stack trivial) fun _ => ?_
  refine .ite (fun _ => beside_open stack trivial) fun _ => ?_
  refine .ite (fun _ => .next (.inside stack trivial)) fun _ => ?_
  refine .ite (fun _ => .next (.inside stack trivial)) fun _ => ?_
  refine .ite (fun _ => .next (.inside stack trivial)) fun _ => ?_
  cases Numeral.start? c with
  | none => exact beside_fail stack (by decide)
  | some n => exact .next (.inside stack trivial)

/-- The character behind an element or a member. -/
theorem beside_stepAfter (stack : List (Frame α)) {after : After α} (h : (Mode.after after).Inner) :
    Beside asm base s c (stepAfter asm stack after c) (stepAfter asm (stack ++ base) after c) := by
  rw [stepAfter.eq_def, stepAfter.eq_def]
  refine .ite (fun _ => .next (.inside stack h)) fun _ => ?_
  cases after with
  | root v => exact absurd h id
  | element done =>
    refine .ite (fun _ => .next (.inside stack trivial)) fun _ => ?_
    exact .ite (fun _ => .next (over_settle _ stack base)) fun _ => beside_fail stack (by decide)
  | member done =>
    refine .ite (fun _ => .next (.inside stack trivial)) fun _ => ?_
    exact .ite (fun _ => beside_closeObject stack done) fun _ => beside_failAtKey stack (by decide)

/-- The character behind a value; alone, none may follow. -/
theorem beside_stepBehind {v : α} (stack : List (Frame α))
    (hv : stack = [] → finish asm s = .ok v) :
    Beside asm base s c (stepAfter asm (complete v stack).1 (complete v stack).2 c)
      (stepAfter asm (complete v (stack ++ base)).1 (complete v (stack ++ base)).2 c) := by
  match stack with
  | [] =>
    by_cases hc : isSpace c = true
    · have hstay (stack : List (Frame α)) (after : After α) :
          stepAfter asm stack after c = .ok ⟨stack, .after after⟩ := by
        rw [stepAfter.eq_def, if_pos hc]
      rw [hstay, hstay]
      exact .next (.behind v)
    · have halone : stepAfter asm [] (.root v) c = .error ⟨[], .trailingCharacters⟩ := by
        rw [stepAfter.eq_def, if_neg hc]
      have hpast := @Beside.past _ asm base s c v (by simpa using hc) (hv rfl)
      rw [← halone] at hpast
      exact hpast
  | .element done :: r => exact beside_stepAfter r trivial
  | .member done key :: r => exact beside_stepAfter r trivial

/-- **One character**, alone and inside containers. -/
theorem beside_step (asm : Assembly α) (c : Char) (h : Over base s t) :
    Beside asm base s c (step asm s c) (step asm t c) := by
  have hstay : Beside asm base s c (.ok s) (.ok t) := .next h
  cases h with
  | behind v => exact beside_stepBehind [] fun _ => rfl
  | inside stack hmode =>
    rename_i mode
    rw [step.eq_def, step.eq_def]
    cases mode with
    | value => exact .ite (fun _ => hstay) fun _ => beside_stepValue stack
    | firstElement =>
      refine .ite (fun _ => hstay) fun _ => ?_
      refine .ite (fun _ => .next (over_settle _ stack base)) fun _ => ?_
      exact beside_stepValue (.element [] :: stack)
    | nextElement done =>
      refine .ite (fun _ => hstay) fun _ => ?_
      refine .ite (fun _ => beside_fail stack (by decide)) fun _ => ?_
      exact beside_stepValue (.element done :: stack)
    | firstKey =>
      refine .ite (fun _ => hstay) fun _ => ?_
      refine .ite (fun _ => .next (.inside stack trivial)) fun _ => ?_
      exact .ite (fun _ => beside_closeObject stack []) fun _ => beside_failAtKey stack (by decide)
    | nextKey done =>
      refine .ite (fun _ => hstay) fun _ => ?_
      refine .ite (fun _ => .next (.inside stack trivial)) fun _ => ?_
      exact .ite (fun _ => beside_failAtKey stack (by decide)) fun _ =>
        beside_failAtKey stack (by decide)
    | key done p =>
      dsimp only
      rcases hp : p.extend c with fault | _ | q
      · have hfault := Partial.fault_of_extend hp
        exact beside_failAtKey stack (by rcases hfault with rfl | rfl | rfl | rfl <;> decide)
      · exact .next (.inside stack trivial)
      · exact .next (.inside stack trivial)
    | colon done key =>
      refine .ite (fun _ => hstay) fun _ => ?_
      refine .ite (fun _ => ?_) fun _ => beside_fail stack (by decide)
      exact .next (.inside (.member done key :: stack) trivial)
    | word left v =>
      cases left with
      | nil => exact absurd hmode id
      | cons d r =>
        refine .ite (fun _ => ?_) fun _ => beside_fail stack (by decide)
        cases r with
        | nil => exact .next (over_settle v stack base)
        | cons e r => exact .next (.inside stack trivial)
    | numeral n =>
      dsimp only
      rcases hn : n.extend c with fault | _ | m
      · exact beside_fail stack (by rw [Numeral.fault_of_extend hn]; decide)
      · dsimp only
        rcases hm : n.close with fault | m
        · have hfault := Numeral.fault_of_close hm
          exact beside_fail stack (by rcases hfault with rfl | rfl <;> decide)
        · refine beside_stepBehind stack ?_
          rintro rfl
          rw [finish]
          simp only [hm]
          rfl
      · exact .next (.inside stack trivial)
    | text p =>
      dsimp only
      rcases hp : p.extend c with fault | _ | q
      · have hfault := Partial.fault_of_extend hp
        exact beside_fail stack (by rcases hfault with rfl | rfl | rfl | rfl <;> decide)
      · exact .next (over_settle _ stack base)
      · exact .next (.inside stack trivial)
      | after after => exact beside_stepAfter stack hmode

/-- **The end of the text**: a fault of its own, or what the end is behind a value. -/
theorem finish_over (asm : Assembly α) (h : Over base s t) :
    (∃ f : Failure, finish asm s = .error f ∧ f.fault ≠ .trailingCharacters
        ∧ finish asm t = .error ⟨path base ++ f.path, f.fault⟩)
      ∨ ∃ v, finish asm s = .ok v
        ∧ finish asm t = finishAfter (complete v base).1 (complete v base).2 := by
  have hfail (stack : List (Frame α)) {fault : Fault} (hf : fault ≠ .trailingCharacters) :
      ∃ f : Failure, (fail stack fault : Except Failure α) = .error f
        ∧ f.fault ≠ .trailingCharacters
        ∧ (fail (stack ++ base) fault : Except Failure α)
          = .error ⟨path base ++ f.path, f.fault⟩ :=
    ⟨_, rfl, hf, by rw [fail, path_append]⟩
  have hfailAtKey (stack : List (Frame α)) {fault : Fault} (hf : fault ≠ .trailingCharacters) :
      ∃ f : Failure, (failAtKey stack fault : Except Failure α) = .error f
        ∧ f.fault ≠ .trailingCharacters
        ∧ (failAtKey (stack ++ base) fault : Except Failure α)
          = .error ⟨path base ++ f.path, f.fault⟩ :=
    ⟨_, rfl, hf, by rw [failAtKey, path_append, List.append_assoc]⟩
  cases h with
  | behind v => exact .inr ⟨v, rfl, rfl⟩
  | inside stack hmode =>
    rename_i mode
    rw [finish.eq_def, finish.eq_def]
    cases mode with
    | value | firstElement | nextElement | colon | word | text =>
      exact .inl (hfail stack (by decide))
    | firstKey | nextKey | key => exact .inl (hfailAtKey stack (by decide))
    | numeral n =>
      dsimp only
      rcases hm : n.close with fault | m
      · have hfault := Numeral.fault_of_close hm
        exact .inl (hfail stack (by rcases hfault with rfl | rfl <;> decide))
      · match stack with
        | [] => exact .inr ⟨asm.number m, rfl, rfl⟩
        | .element done :: r => exact .inl (hfail r (by decide))
        | .member done key :: r => exact .inl (hfailAtKey r (by decide))
    | after after =>
      cases after with
      | root v => exact absurd hmode id
      | element done => exact .inl (hfail stack (by decide))
      | member done => exact .inl (hfailAtKey stack (by decide))

/-- What comes of a text alone and inside containers: the same fault, too deep a nesting inside,
or a value, at the end of the text or before a character that goes on with the container. -/
inductive Compared (asm : Assembly α) (base : List (Frame α)) (s t : State α)
    (text : List Char) : Prop
  | stuck (f : Failure) (hf : f.fault ≠ .trailingCharacters) (alone : run asm s text = .error f)
      (inside : run asm t text = .error ⟨path base ++ f.path, f.fault⟩)
  | deep (place : List Segment) (inside : run asm t text = .error ⟨place, .tooDeep⟩)
  | done (v : α) (alone : run asm s text = .ok v)
      (inside : run asm t text = finishAfter (complete v base).1 (complete v base).2)
  | past (item : List Char) (c : Char) (rest : List Char) (v : α) (htext : text = item ++ c :: rest)
      (hc : isSpace c = false) (alone : run asm s item = .ok v)
      (trailing : ∀ r, run asm s (item ++ c :: r) = .error ⟨[], .trailingCharacters⟩)
      (inside : run asm t text
        = stepAfter asm (complete v base).1 (complete v base).2 c >>= fun u => run asm u rest)

/-- **A text alone and inside containers**, by induction over the text. -/
theorem run_over (asm : Assembly α) (h : Over base s t) (text : List Char) :
    Compared asm base s t text := by
  induction text generalizing s t with
  | nil =>
    obtain ⟨f, hs, hf, ht⟩ | ⟨v, hs, ht⟩ := finish_over asm h
    · exact .stuck f hf hs ht
    · exact .done v hs ht
  | cons c r ih =>
    have hbeside := beside_step asm c h
    generalize hx : step asm s c = x at hbeside
    generalize hy : step asm t c = y at hbeside
    have hs (text : List Char) : run asm s (c :: text) = x >>= fun u => run asm u text := by
      rw [run_cons, hx]
    have ht : run asm t (c :: r) = y >>= fun u => run asm u r := by rw [run_cons, hy]
    cases hbeside with
    | next hnext =>
      cases ih hnext with
      | stuck f hf alone inside => exact .stuck f hf ((hs r).trans alone) (ht.trans inside)
      | deep place inside => exact .deep place (ht.trans inside)
      | done v alone inside => exact .done v ((hs r).trans alone) (ht.trans inside)
      | past item d rest v htext hd alone trailing inside =>
        refine .past (c :: item) d rest v (by rw [htext, List.cons_append]) hd ?_ ?_ ?_
        · exact (hs item).trans alone
        · exact fun r => (hs (item ++ d :: r)).trans (trailing r)
        · exact ht.trans inside
    | fail hf => exact .stuck _ hf (hs r) ht
    | deep x place => exact .deep place ht
    | past hc hv => exact .past [] c r _ rfl hc hv hs ht

end State

end QueryScribe.Json
