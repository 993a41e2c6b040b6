import QueryScribe.Json.Reader
import QueryScribe.Proofs.Outcome

/-!
# Where objects stand and where they end

`Json.At` says what stands at a place of a tree: the indices and keys on the way to it from the
root.  `ClosesAt` says that an object ends at a place of a text: the plain reader, having
read what is before it, closes the object with the brace there.  The two agree on every text that
can be read (`at_iff_closesAt`), so that each object of a tree has a brace of its text, and
the braces put the objects in an order.

The proof follows the objects that are complete (`State.Has`).  One character adds none, or it is a
brace and adds the object that it closes (`has_step`).
-/

namespace QueryScribe.Json

open QueryScribe.Outcome

/-- What stands at a place in a tree. -/
inductive At : Json → List Segment → Json → Prop
  | here (j : Json) : At j [] j
  | element {items : List Json} {i : Nat} {j k : Json} {path : List Segment}
      (hi : items[i]? = some j) (h : At j path k) : At (.array items) (.index i :: path) k
  | member {members : List (String × Json)} {key : String} {j k : Json} {path : List Segment}
      (hm : (key, j) ∈ members) (h : At j path k) : At (.object members) (.member key :: path) k

/-- An object ends at a place of a text, which holds its closing brace: the plain reader
closes it there.  The path leads to it from the root. -/
structure ClosesAt (text : List Char) (n : Nat) (path : List Segment)
    (members : List (String × Json)) : Prop where
  brace : text[n]? = some '\x7d'
  closed : ∃ s stack, (text.take n).foldlM (State.step .tree) State.start = .ok s
    ∧ State.step .tree s '\x7d' = .ok (State.settle (.object members) stack)
    ∧ State.path stack = path

section

variable {stack : List (Frame Json)} {path : List Segment} {members : List (String × Json)}

/-! ### What is complete -/

/-- A value that is read, and the step to it from its container. -/
def Frame.Done : Frame Json → Segment → Json → Prop
  | .element done, s, j => ∃ i, s = .index i ∧ done.reverse[i]? = some j
  | .member done _, s, j => ∃ key, s = .member key ∧ (key, j) ∈ done.reverse

/-- An object in a value that stands where the next value of open containers stands. -/
def Within (stack : List (Frame Json)) (j : Json) (path : List Segment)
    (members : List (String × Json)) : Prop :=
  ∃ tail, path = State.path stack ++ tail ∧ j.At tail (.object members)

/-- An object in one of the values that open containers hold. -/
def Stored : List (Frame Json) → List Segment → List (String × Json) → Prop
  | [], _, _ => False
  | f :: stack, path, members =>
    (∃ s j tail, f.Done s j ∧ path = State.path stack ++ s :: tail ∧ j.At tail (.object members))
      ∨ Stored stack path members

/-- An object that is complete, after a value. -/
def State.HasAfter (stack : List (Frame Json)) (path : List Segment)
    (members : List (String × Json)) : After Json → Prop
  | .root j => j.At path (.object members)
  | .element done => Stored (.element done :: stack) path members
  | .member done => Stored (.member done "" :: stack) path members

/-- An object that is complete. -/
def State.Has (s : State Json) (path : List Segment) (members : List (String × Json)) : Prop :=
  match s.mode with
  | .nextElement done => Stored (.element done :: s.stack) path members
  | .nextKey done | .key done _ => Stored (.member done "" :: s.stack) path members
  | .colon done key => Stored (.member done key :: s.stack) path members
  | .word _ j => Stored s.stack path members ∨ Within s.stack j path members
  | .after after => State.HasAfter s.stack path members after
  | .value | .firstElement | .firstKey | .numeral _ | .text _ => Stored s.stack path members

/-! ### Places in values -/

theorem Frame.done_element_cons {done : List Json} {j k : Json} {s : Segment} :
    (Frame.element (j :: done)).Done s k
      ↔ (Frame.element done).Done s k ∨ s = (Frame.element done).segment ∧ k = j := by
  simp only [Frame.Done, Frame.segment, List.reverse_cons]
  constructor
  · rintro ⟨i, rfl, hi⟩
    obtain hlt | hle := Nat.lt_or_ge i done.reverse.length
    · rw [List.getElem?_append_left hlt] at hi
      exact .inl ⟨i, rfl, hi⟩
    · rw [List.getElem?_append_right hle, List.getElem?_singleton] at hi
      split at hi
      · cases hi
        have : i = done.length := by
          rw [List.length_reverse] at *
          omega
        exact .inr ⟨congrArg _ this, rfl⟩
      · cases hi
  · rintro (⟨i, rfl, hi⟩ | ⟨rfl, rfl⟩)
    · obtain ⟨hlt, _⟩ := List.getElem?_eq_some_iff.1 hi
      exact ⟨i, rfl, by rwa [List.getElem?_append_left hlt]⟩
    · exact ⟨done.length, rfl, by simp⟩

theorem Frame.done_member_cons {done : List (String × Json)} {j k : Json} {key other : String}
    {s : Segment} :
    (Frame.member ((key, j) :: done) other).Done s k
      ↔ (Frame.member done key).Done s k ∨ s = (Frame.member done key).segment ∧ k = j := by
  simp only [Frame.Done, Frame.segment, List.mem_reverse, List.mem_cons, Prod.mk.injEq]
  constructor
  · rintro ⟨name, rfl, ⟨rfl, rfl⟩ | h⟩
    · exact .inr ⟨rfl, rfl⟩
    · exact .inl ⟨name, rfl, h⟩
  · rintro (⟨name, rfl, h⟩ | ⟨rfl, rfl⟩)
    · exact ⟨name, rfl, .inr h⟩
    · exact ⟨key, rfl, .inl ⟨rfl, rfl⟩⟩

/-- An object in an array is in one of the elements. -/
theorem within_array {done : List Json} :
    Within stack (.array done.reverse) path members
      ↔ ∃ s j tail, (Frame.element done).Done s j ∧ path = State.path stack ++ s :: tail
        ∧ j.At tail (.object members) := by
  constructor
  · rintro ⟨_, rfl, h⟩
    cases h with
    | element hi h => exact ⟨_, _, _, ⟨_, rfl, hi⟩, rfl, h⟩
  · rintro ⟨_, j, tail, ⟨i, rfl, hi⟩, rfl, h⟩
    exact ⟨_, rfl, .element hi h⟩

/-- An object in an object is in one of the members, or is the object itself. -/
theorem within_object {done : List (String × Json)} (key : String) :
    Within stack (.object done.reverse) path members
      ↔ (∃ s j tail, (Frame.member done key).Done s j ∧ path = State.path stack ++ s :: tail
        ∧ j.At tail (.object members)) ∨ path = State.path stack ∧ members = done.reverse := by
  constructor
  · rintro ⟨_, rfl, h⟩
    cases h with
    | here => exact .inr ⟨List.append_nil _, rfl⟩
    | member hm h => exact .inl ⟨_, _, _, ⟨_, rfl, hm⟩, rfl, h⟩
  · rintro (⟨_, j, tail, ⟨name, rfl, hm⟩, rfl, h⟩ | ⟨rfl, rfl⟩)
    · exact ⟨_, rfl, .member hm h⟩
    · exact ⟨[], (List.append_nil _).symm, .here _⟩

/-! ### Values that are finished -/

/-- A value in which there is no object. -/
def Bare (j : Json) : Prop := ∀ path members, ¬ j.At path (.object members)

theorem bare_null : Bare .null := nofun

theorem bare_bool (b : Bool) : Bare (.bool b) := nofun

theorem bare_number (n : JsonNumber) : Bare (.number n) := nofun

theorem bare_string (s : String) : Bare (.string s) := nofun

theorem Bare.not_within {j : Json} (hj : Bare j) : ¬ Within stack j path members := by
  rintro ⟨tail, _, h⟩
  exact hj tail members h

theorem stored_emptyArray :
    Stored (.element [] :: stack) path members ↔ Stored stack path members := by
  constructor
  · rintro (⟨s, j, tail, ⟨i, _, hi⟩, _⟩ | h)
    · exact absurd hi nofun
    · exact h
  · exact .inr

theorem stored_emptyObject (key : String) :
    Stored (.member [] key :: stack) path members ↔ Stored stack path members := by
  constructor
  · rintro (⟨s, j, tail, ⟨i, _, hi⟩, _⟩ | h)
    · exact absurd hi List.not_mem_nil
    · exact h
  · exact .inr

theorem stored_push {f g : Frame Json} {j : Json}
    (hdone : ∀ s k, g.Done s k ↔ f.Done s k ∨ s = f.segment ∧ k = j) :
    Stored (g :: stack) path members
      ↔ Stored (f :: stack) path members ∨ Within (f :: stack) j path members := by
  have hpath (tail : List Segment) :
      State.path (f :: stack) ++ tail = State.path stack ++ f.segment :: tail := by
    simp [State.path]
  constructor
  · rintro (⟨s, k, tail, hk, rfl, h⟩ | h)
    · obtain hk | ⟨rfl, rfl⟩ := (hdone s k).1 hk
      · exact .inl (.inl ⟨s, k, tail, hk, rfl, h⟩)
      · exact .inr ⟨tail, (hpath tail).symm, h⟩
    · exact .inl (.inr h)
  · rintro ((⟨s, k, tail, hk, rfl, h⟩ | h) | ⟨tail, rfl, h⟩)
    · exact .inl ⟨s, k, tail, (hdone s k).2 (.inl hk), rfl, h⟩
    · exact .inr h
    · exact .inl ⟨_, j, tail, (hdone _ j).2 (.inr ⟨rfl, rfl⟩), hpath tail, h⟩

/-- A value goes into the innermost container, or is the root. -/
theorem hasAfter_complete {j : Json} :
    State.HasAfter (State.complete j stack).1 path members (State.complete j stack).2
      ↔ Stored stack path members ∨ Within stack j path members := by
  match stack with
  | [] =>
    constructor
    · intro h
      exact .inr ⟨path, rfl, h⟩
    · rintro (h | ⟨tail, rfl, h⟩)
      · exact absurd h id
      · exact h
  | .element done :: r => exact stored_push fun s k => Frame.done_element_cons
  | .member done key :: r => exact stored_push fun s k => Frame.done_member_cons

theorem has_settle {j : Json} :
    (State.settle j stack).Has path members
      ↔ Stored stack path members ∨ Within stack j path members :=
  hasAfter_complete

theorem has_settle_bare {j : Json} (hj : Bare j) :
    (State.settle j stack).Has path members ↔ Stored stack path members := by
  rw [has_settle]
  exact or_iff_left hj.not_within

theorem has_settle_array {done : List Json} :
    (State.settle (.array done.reverse) stack).Has path members
      ↔ Stored (.element done :: stack) path members := by
  rw [has_settle, within_array, or_comm]
  rfl

/-- A closing brace adds the object that it closes. -/
theorem has_settle_object {done : List (String × Json)} {key : String} :
    (State.settle (.object done.reverse) stack).Has path members
      ↔ Stored (.member done key :: stack) path members
        ∨ path = State.path stack ∧ members = done.reverse := by
  rw [has_settle, within_object key, ← or_assoc]
  exact or_congr_left or_comm

/-! ### One character -/

/-- What a step does to the objects that are complete: nothing, or a brace closes one more. -/
def Closes (s : State Json) (c : Char) (t : State Json) : Prop :=
  (∀ path members, t.Has path members ↔ s.Has path members)
    ∨ ∃ stack done, c = '\x7d' ∧ t = State.settle (.object done) stack
      ∧ ∀ path members, t.Has path members
        ↔ s.Has path members ∨ path = State.path stack ∧ members = done

end

section Step

open State

variable {stack : List (Frame Json)} {s t : State Json} {c : Char}

/-- A state that skips white space has only to take the other characters. -/
theorem closes_skip {next : Except Failure (State Json)}
    (h : (if isSpace c = true then .ok s else next) = .ok t)
    (hnext : next = .ok t → Closes s c t) : Closes s c t := by
  split at h
  · cases h
    exact .inl fun _ _ => Iff.rfl
  · exact hnext h

/-- The character that starts a value: only containers that are open count. -/
theorem has_stepValue (h : stepValue .tree stack c = .ok t) (path : List Segment)
    (members : List (String × Json)) : t.Has path members ↔ Stored stack path members := by
  rw [stepValue] at h
  split at h
  · cases h
    exact Iff.rfl
  · split at h
    · split at h <;> cases h
      exact Iff.rfl
    · split at h
      · split at h <;> cases h
        exact Iff.rfl
      · split at h
        · cases h
          exact or_iff_left (bare_bool true).not_within
        · split at h
          · cases h
            exact or_iff_left (bare_bool false).not_within
          · split at h
            · cases h
              exact or_iff_left bare_null.not_within
            · split at h <;> cases h
              exact Iff.rfl

theorem closes_closeObject {done : List (String × Json)} {key : String}
    (hs : ∀ path members, s.Has path members ↔ Stored (.member done key :: stack) path members)
    (hc : c = '\x7d') (h : closeObject .tree stack done = .ok t) : Closes s c t := by
  cases h
  refine .inr ⟨stack, done.reverse, hc, rfl, fun path members => ?_⟩
  rw [hs, has_settle_object]

theorem closes_stepAfter {after : After Json}
    (hs : ∀ path members, s.Has path members ↔ HasAfter stack path members after)
    (h : stepAfter .tree stack after c = .ok t) : Closes s c t := by
  rw [stepAfter.eq_def] at h
  split at h
  · cases h
    exact .inl fun path members => (hs path members).symm
  · cases after with
    | root j => cases h
    | element done =>
      dsimp only at h
      split at h
      · cases h
        exact .inl fun path members => (hs path members).symm
      · split at h
        · cases h
          exact .inl fun path members => has_settle_array.trans (hs path members).symm
        · cases h
    | member done =>
      dsimp only at h
      split at h
      · cases h
        exact .inl fun path members => (hs path members).symm
      · split at h
        · rename_i hc
          exact closes_closeObject hs hc h
        · cases h

/-- The character behind a value without objects. -/
theorem closes_stepBehind {j : Json} (hj : Bare j)
    (hs : ∀ path members, s.Has path members ↔ Stored stack path members)
    (h : stepAfter .tree (complete j stack).1 (complete j stack).2 c = .ok t) : Closes s c t := by
  refine closes_stepAfter (fun path members => ?_) h
  rw [hs, hasAfter_complete]
  exact (or_iff_left hj.not_within).symm

/-- **One character adds no object, or it is a brace and adds the one that it closes.** -/
theorem closes_step (h : step .tree s c = .ok t) : Closes s c t := by
  obtain ⟨stack, mode⟩ := s
  rw [step.eq_def] at h
  cases mode with
  | value =>
    refine closes_skip h fun h => ?_
    exact .inl (has_stepValue h)
  | firstElement =>
    refine closes_skip h fun h => ?_
    split at h
    · cases h
      exact .inl fun path members => (@has_settle_array _ _ _ []).trans stored_emptyArray
    · exact .inl fun path members => (has_stepValue h path members).trans stored_emptyArray
  | nextElement done =>
    refine closes_skip h fun h => ?_
    split at h
    · cases h
    · exact .inl (has_stepValue h)
  | firstKey =>
    refine closes_skip h fun h => ?_
    split at h
    · cases h
      exact .inl fun path members => stored_emptyObject ""
    · split at h
      · rename_i hc
        exact closes_closeObject (fun path members => (stored_emptyObject "").symm) hc h
      · cases h
  | nextKey done =>
    refine closes_skip h fun h => ?_
    split at h
    · cases h
      exact .inl fun path members => Iff.rfl
    · split at h <;> cases h
  | key done p =>
    dsimp only at h
    split at h <;> cases h
    · exact .inl fun path members => Iff.rfl
    · exact .inl fun path members => Iff.rfl
  | colon done key =>
    refine closes_skip h fun h => ?_
    split at h <;> cases h
    exact .inl fun path members => Iff.rfl
  | word left j =>
    cases left with
    | nil => exact closes_stepAfter (fun path members => hasAfter_complete.symm) h
    | cons d r =>
      dsimp only at h
      split at h
      · split at h <;> cases h
        · exact .inl fun path members => has_settle
        · exact .inl fun path members => Iff.rfl
      · cases h
  | numeral n =>
    dsimp only at h
    split at h
    · cases h
      exact .inl fun path members => Iff.rfl
    · split at h
      · exact closes_stepBehind (bare_number _) (fun path members => Iff.rfl) h
      · cases h
    · cases h
  | text p =>
    dsimp only at h
    split at h <;> cases h
    · exact .inl fun path members => Iff.rfl
    · exact .inl fun path members => has_settle_bare (bare_string _)
  | after after => exact closes_stepAfter (fun path members => Iff.rfl) h

/-- The end of the text: what is complete is in the tree. -/
theorem has_finish {j : Json} (h : finish .tree s = .ok j) (path : List Segment)
    (members : List (String × Json)) : s.Has path members ↔ j.At path (.object members) := by
  obtain ⟨stack, mode⟩ := s
  have hafter {stack : List (Frame Json)} {after : After Json}
      (h : finishAfter stack after = .ok j) :
      HasAfter stack path members after ↔ j.At path (.object members) := by
    cases after <;> cases h
    exact Iff.rfl
  rw [finish.eq_def] at h
  cases mode with
  | numeral n =>
    dsimp only at h
    split at h
    · rw [← hafter h, hasAfter_complete]
      exact (or_iff_left (bare_number _).not_within).symm
    · cases h
  | after after => exact hafter h
  | value | firstElement | nextElement | firstKey | nextKey | key | colon | word | text => cases h

end Step

/-! ### The whole text -/

section Text

open State

/-- The objects that a run adds are those that its braces close. -/
theorem has_run {text : List Char} {s t : State Json} (h : text.foldlM (step .tree) s = .ok t)
    (path : List Segment) (members : List (String × Json)) :
    t.Has path members ↔ s.Has path members ∨ ∃ before after u stack,
      text = before ++ '\x7d' :: after ∧ before.foldlM (step .tree) s = .ok u
        ∧ step .tree u '\x7d' = .ok (settle (.object members) stack) ∧ State.path stack = path := by
  induction text generalizing s with
  | nil =>
    cases h
    refine ⟨.inl, ?_⟩
    rintro (h | ⟨before, after, _, _, h, _⟩)
    · exact h
    · exact absurd h (by simp)
  | cons c r ih =>
    obtain ⟨m, hm, h⟩ := bind_eq_ok.1 h
    rw [ih h]
    constructor
    · rintro (hhas | ⟨before, after, u, stack, rfl, hu, hstep, hpath⟩)
      · obtain hsame | ⟨stack, done, rfl, rfl, hmore⟩ := closes_step hm
        · exact .inl ((hsame path members).1 hhas)
        · obtain hold | ⟨rfl, rfl⟩ := (hmore path members).1 hhas
          · exact .inl hold
          · exact .inr ⟨[], r, s, stack, rfl, rfl, hm, rfl⟩
      · exact .inr ⟨c :: before, after, u, stack, rfl, bind_eq_ok.2 ⟨m, hm, hu⟩, hstep, hpath⟩
    · rintro (hhas | ⟨before, after, u, stack, htext, hu, hstep, rfl⟩)
      · refine .inl ?_
        obtain hsame | ⟨_, _, _, _, hmore⟩ := closes_step hm
        · exact (hsame path members).2 hhas
        · exact (hmore path members).2 (.inl hhas)
      · cases before with
        | nil =>
          cases htext
          cases hu
          obtain rfl : settle (.object members) stack = m := by
            rw [hstep] at hm
            exact Except.ok.inj hm
          exact .inl (has_settle.2 (.inr ⟨[], (List.append_nil _).symm, .here _⟩))
        | cons d before =>
          cases htext
          obtain ⟨m', hm', hu⟩ := bind_eq_ok.1 hu
          obtain rfl : m' = m := by
            rw [hm'] at hm
            exact Except.ok.inj hm
          exact .inr ⟨before, after, u, stack, rfl, hu, hstep, rfl⟩

variable {text : List Char} {path : List Segment} {members : List (String × Json)}

/-- Where an object ends, with the text cut there. -/
theorem closesAt_iff {n : Nat} :
    ClosesAt text n path members ↔ ∃ before after s stack, text = before ++ '\x7d' :: after
      ∧ before.length = n ∧ before.foldlM (step .tree) start = .ok s
      ∧ step .tree s '\x7d' = .ok (settle (.object members) stack) ∧ State.path stack = path := by
  constructor
  · rintro ⟨hbrace, s, stack, hs, hstep, hpath⟩
    obtain ⟨hn, hget⟩ := List.getElem?_eq_some_iff.1 hbrace
    refine ⟨text.take n, text.drop (n + 1), s, stack, ?_, ?_, hs, hstep, hpath⟩
    · rw [← hget, ← List.drop_eq_getElem_cons hn, List.take_append_drop]
    · rw [List.length_take]
      omega
  · rintro ⟨before, after, s, stack, rfl, rfl, hs, hstep, hpath⟩
    refine ⟨by simp, s, stack, ?_, hstep, hpath⟩
    rwa [List.take_left]

/-- **Each object of a tree ends at a brace of its text**, and each brace that ends an object ends
one of the tree. -/
theorem at_iff_closesAt {j : Json} (h : read text = .ok j) :
    j.At path (.object members) ↔ ∃ n, ClosesAt text n path members := by
  obtain ⟨t, ht, hj⟩ := bind_eq_ok.1 h
  rw [← has_finish hj, has_run ht]
  constructor
  · rintro (hhas | ⟨before, after, s, stack, hcut⟩)
    · exact absurd hhas id
    · exact ⟨_, closesAt_iff.2 ⟨before, after, s, stack, hcut.1, rfl, hcut.2⟩⟩
  · rintro ⟨n, hn⟩
    obtain ⟨before, after, s, stack, htext, _, hcut⟩ := closesAt_iff.1 hn
    exact .inr ⟨before, after, s, stack, htext, hcut⟩

end Text

end QueryScribe.Json
