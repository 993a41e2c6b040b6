import QueryScribe.Proofs.Json.Reading

/-!
# What the reader may make

A property of values that every piece of an assembly has, given that what is inside it has it, is a
property of all that the reader makes.  The property is told whether the value
was made as an array, and so the theorem also says when that is: exactly if the
first character of the text, white space apart, is a bracket (`readWith_made`).

The invariant goes with the stack: all values in open containers have the property (`Held`),
and the outermost container is an array or not from the first character on (`Stands`).
-/

namespace QueryScribe.Json

open QueryScribe.Outcome

variable {α : Type} {asm : Assembly α} {P : Bool → α → Prop} {b : Bool}

/-- A property that all pieces have, of which those marked are the arrays. -/
structure Assembly.Makes (asm : Assembly α) (P : Bool → α → Prop) : Prop where
  null : P false asm.null
  bool (x : Bool) : P false (asm.bool x)
  number (n : JsonNumber) : P false (asm.number n)
  string (s : String) : P false (asm.string s)
  array {vs : List α} (h : ∀ v ∈ vs, ∃ b, P b v) : P true (asm.array vs)
  object {ms : List (String × α)} {v : α} (h : ∀ m ∈ ms, ∃ b, P b m.2)
    (hv : asm.object ms = some v) : P false v

/-! ### The invariant -/

namespace Frame

def isArray : Frame α → Bool
  | element _ => true
  | member _ _ => false

/-- What is in a container has a property. -/
def Held (P : Bool → α → Prop) : Frame α → Prop
  | element done => ∀ v ∈ done, ∃ b, P b v
  | member done _ => ∀ m ∈ done, ∃ b, P b m.2

theorem held_emptyArray : (element ([] : List α)).Held P := by
  intro v hv
  exact absurd hv List.not_mem_nil

theorem held_emptyObject (key : String) : (member ([] : List (String × α)) key).Held P := by
  intro m hm
  exact absurd hm List.not_mem_nil

end Frame

/-- What is in open containers has a property, and the outermost is an array or not. -/
structure Stands (P : Bool → α → Prop) (b : Bool) (stack : List (Frame α)) : Prop where
  held : ∀ f ∈ stack, f.Held P
  root : ∀ f, stack.getLast? = some f → f.isArray = b

/-- Containers in which a value that is no array is being read. -/
structure Expects (P : Bool → α → Prop) (b : Bool) (stack : List (Frame α)) : Prop where
  stands : Stands P b stack
  scalar : stack = [] → false = b

namespace State

def AfterFits (P : Bool → α → Prop) (b : Bool) (stack : List (Frame α)) : After α → Prop
  | .root v => P b v
  | .element done => Stands P b (.element done :: stack)
  | .member done => Stands P b (.member done "" :: stack)

/-- The invariant, which holds once the first value has begun. -/
def Fits (P : Bool → α → Prop) (b : Bool) (s : State α) : Prop :=
  match s.mode with
  | .value => Stands P b s.stack ∧ s.stack ≠ []
  | .firstElement => Stands P b (.element [] :: s.stack)
  | .nextElement done => Stands P b (.element done :: s.stack)
  | .firstKey => Stands P b (.member [] "" :: s.stack)
  | .nextKey done | .key done _ => Stands P b (.member done "" :: s.stack)
  | .colon done key => Stands P b (.member done key :: s.stack)
  | .word _ v => Expects P b s.stack ∧ P false v
  | .numeral _ | .text _ => Expects P b s.stack
  | .after after => AfterFits P b s.stack after

end State

namespace Stands

theorem nil (P : Bool → α → Prop) (b : Bool) : Stands P b [] := ⟨nofun, nofun⟩

variable {f g : Frame α} {stack : List (Frame α)}

theorem replace (h : Stands P b (f :: stack)) (hg : g.Held P) (hkind : g.isArray = f.isArray) :
    Stands P b (g :: stack) := by
  refine ⟨?_, ?_⟩
  · intro k hk
    rcases List.mem_cons.1 hk with rfl | hk
    · exact hg
    · exact h.held k (List.mem_cons_of_mem f hk)
  · intro k hk
    cases stack with
    | nil =>
      obtain rfl : g = k := by simpa using hk
      rw [hkind]
      exact h.root f rfl
    | cons e r => exact h.root k hk

/-- What is left when the innermost container is closed. -/
theorem tail (h : Stands P b (f :: stack)) : Stands P b stack := by
  refine ⟨fun k hk => h.held k (List.mem_cons_of_mem f hk), ?_⟩
  intro k hk
  cases stack with
  | nil => exact absurd hk nofun
  | cons e r => exact h.root k hk

/-- A container that is opened; the first one decides. -/
theorem push (h : Stands P b stack) (hf : f.Held P) (hkind : stack = [] → f.isArray = b) :
    Stands P b (f :: stack) := by
  refine ⟨?_, ?_⟩
  · intro k hk
    rcases List.mem_cons.1 hk with rfl | hk
    · exact hf
    · exact h.held k hk
  · intro k hk
    cases stack with
    | nil =>
      obtain rfl : f = k := by simpa using hk
      exact hkind rfl
    | cons e r => exact h.root k hk

/-- The outermost container is what the invariant says. -/
theorem kind (h : Stands P b (f :: stack)) : stack = [] → f.isArray = b := by
  rintro rfl
  exact h.root f rfl

theorem inner (h : Stands P b (f :: stack)) : f.Held P := h.held f List.mem_cons_self

end Stands

/-! ### One character -/

namespace State

section Step

variable {stack : List (Frame α)} {s t : State α} {c : Char}

/-- A value that is finished goes into the innermost container, or is the root. -/
theorem afterFits_complete {v : α} {k : Bool} (hs : Stands P b stack) (hv : P k v)
    (hroot : stack = [] → k = b) :
    AfterFits P b (complete v stack).1 (complete v stack).2 := by
  match stack with
  | [] =>
    rw [hroot rfl] at hv
    exact hv
  | .element done :: r =>
    refine hs.replace ?_ rfl
    intro u hu
    rcases List.mem_cons.1 hu with rfl | hu
    · exact ⟨k, hv⟩
    · exact hs.inner u hu
  | .member done key :: r =>
    refine hs.replace ?_ rfl
    intro m hm
    rcases List.mem_cons.1 hm with rfl | hm
    · exact ⟨k, hv⟩
    · exact hs.inner m hm

theorem fits_settle {v : α} {k : Bool} (hs : Stands P b stack) (hv : P k v)
    (hroot : stack = [] → k = b) : Fits P b (settle v stack) :=
  afterFits_complete hs hv hroot

/-- A state that skips white space has only to take the other characters. -/
theorem fits_skip {next : Except Failure (State α)} (hs : Fits P b s)
    (h : (if isSpace c = true then .ok s else next) = .ok t)
    (hnext : next = .ok t → Fits P b t) : Fits P b t := by
  split at h
  · cases h
    exact hs
  · exact hnext h

variable (hasm : asm.Makes P)
include hasm

theorem fits_closeObject {done : List (String × α)} {key : String}
    (hs : Stands P b (.member done key :: stack)) (h : closeObject asm stack done = .ok t) :
    Fits P b t := by
  rw [closeObject] at h
  split at h
  · rename_i v hv
    cases h
    refine fits_settle hs.tail (hasm.object ?_ hv) hs.kind
    intro m hm
    exact hs.inner m (List.mem_reverse.1 hm)
  · exact absurd h nofun

theorem fits_closeArray {done : List α} (hs : Stands P b (.element done :: stack)) :
    Fits P b (settle (asm.array done.reverse) stack) := by
  refine fits_settle hs.tail (hasm.array ?_) hs.kind
  intro v hv
  exact hs.inner v (List.mem_reverse.1 hv)

/-- The character that starts a value; the first of all tells an array. -/
theorem fits_stepValue (hs : Stands P b stack) (hroot : stack = [] → decide (c = '[') = b)
    (h : stepValue asm stack c = .ok t) : Fits P b t := by
  have expects (hc : c ≠ '[') : Expects P b stack := by
    refine ⟨hs, ?_⟩
    intro hnil
    rw [← hroot hnil, decide_eq_false hc]
  rw [stepValue] at h
  split at h
  · rename_i hc
    cases h
    exact expects (by rw [hc]; decide)
  · split at h
    · rename_i hc
      split at h
      · cases h
      · cases h
        refine hs.push Frame.held_emptyArray ?_
        intro hnil
        rw [← hroot hnil, hc]
        rfl
    · rename_i hbracket
      have hexpects := expects hbracket
      split at h
      · split at h
        · cases h
        · cases h
          exact hs.push (Frame.held_emptyObject "") hexpects.scalar
      · split at h
        · cases h
          exact ⟨hexpects, hasm.bool true⟩
        · split at h
          · cases h
            exact ⟨hexpects, hasm.bool false⟩
          · split at h
            · cases h
              exact ⟨hexpects, hasm.null⟩
            · split at h
              · cases h
                exact hexpects
              · cases h

theorem fits_stepAfter {after : After α} (hs : AfterFits P b stack after)
    (h : stepAfter asm stack after c = .ok t) : Fits P b t := by
  have hfits : Fits P b ⟨stack, .after after⟩ := hs
  rw [stepAfter.eq_def] at h
  refine fits_skip hfits h fun h => ?_
  cases after with
  | root v => cases h
  | element done =>
    dsimp only at h
    split at h
    · cases h
      exact hs
    · split at h
      · cases h
        exact fits_closeArray hasm hs
      · cases h
  | member done =>
    dsimp only at h
    split at h
    · cases h
      exact hs
    · split at h
      · exact fits_closeObject hasm hs h
      · cases h

/-- The character behind a value that is no array. -/
theorem fits_stepBehind {v : α} (hs : Expects P b stack) (hv : P false v)
    (h : stepAfter asm (complete v stack).1 (complete v stack).2 c = .ok t) : Fits P b t :=
  fits_stepAfter hasm (afterFits_complete hs.stands hv hs.scalar) h

/-- **One character keeps the invariant.** -/
theorem fits_step (hs : Fits P b s) (h : step asm s c = .ok t) : Fits P b t := by
  obtain ⟨stack, mode⟩ := s
  rw [step.eq_def] at h
  cases mode with
  | value =>
    refine fits_skip hs h fun h => ?_
    exact fits_stepValue hasm hs.1 (fun hnil => absurd hnil hs.2) h
  | firstElement =>
    refine fits_skip hs h fun h => ?_
    split at h
    · cases h
      exact @fits_closeArray α asm P b stack hasm [] hs
    · exact fits_stepValue hasm hs nofun h
  | nextElement done =>
    refine fits_skip hs h fun h => ?_
    split at h
    · exact absurd h nofun
    · exact fits_stepValue hasm hs nofun h
  | firstKey =>
    refine fits_skip hs h fun h => ?_
    split at h
    · cases h
      exact hs
    · split at h
      · exact fits_closeObject hasm hs h
      · exact absurd h nofun
  | nextKey done =>
    refine fits_skip hs h fun h => ?_
    split at h
    · cases h
      exact hs
    · split at h
      · exact absurd h nofun
      · exact absurd h nofun
  | key done p =>
    dsimp only at h
    split at h
    · cases h
      exact hs
    · cases h
      exact hs.replace hs.inner rfl
    · exact absurd h nofun
  | colon done key =>
    refine fits_skip hs h fun h => ?_
    split at h
    · cases h
      exact ⟨hs, nofun⟩
    · exact absurd h nofun
  | word left v =>
    obtain ⟨hexpects, hv⟩ := hs
    cases left with
    | nil => exact fits_stepBehind hasm hexpects hv h
    | cons d r =>
      dsimp only at h
      split at h
      · split at h
        · cases h
          exact fits_settle hexpects.stands hv hexpects.scalar
        · cases h
          exact ⟨hexpects, hv⟩
      · exact absurd h nofun
  | numeral n =>
    dsimp only at h
    split at h
    · cases h
      exact hs
    · split at h
      · rename_i m hm
        exact fits_stepBehind hasm hs (hasm.number m) h
      · exact absurd h nofun
    · exact absurd h nofun
  | text p =>
    dsimp only at h
    split at h
    · cases h
      exact hs
    · cases h
      exact fits_settle hs.stands (hasm.string p.text) hs.scalar
    · exact absurd h nofun
  | after after => exact fits_stepAfter hasm hs h

/-- **The end of the text.** -/
theorem fits_finish {v : α} (hs : Fits P b s) (h : finish asm s = .ok v) : P b v := by
  obtain ⟨stack, mode⟩ := s
  have hafter {stack : List (Frame α)} {after : After α} (hs : AfterFits P b stack after)
      (h : finishAfter stack after = .ok v) : P b v := by
    cases after with
    | root u =>
      cases h
      exact hs
    | element done => exact absurd h nofun
    | member done => exact absurd h nofun
  rw [finish.eq_def] at h
  cases mode with
  | numeral n =>
    dsimp only at h
    split at h
    · rename_i m hm
      exact hafter (afterFits_complete hs.stands (hasm.number m) hs.scalar) h
    · exact absurd h nofun
  | after after => exact hafter hs h
  | value | firstElement | nextElement | firstKey | nextKey | key | colon | word | text =>
    exact absurd h nofun

end Step

end State

/-! ### The whole text -/

/-- The rest of a text, once the first value has begun. -/
theorem made_of_fits (hasm : asm.Makes P) {text : List Char} {s t : State α} {v : α}
    (hs : s.Fits P b) (h : text.foldlM (State.step asm) s = .ok t)
    (hv : State.finish asm t = .ok v) : P b v := by
  induction text generalizing s with
  | nil =>
    cases h
    exact State.fits_finish hasm hs hv
  | cons c r ih =>
    obtain ⟨m, hm, h⟩ := bind_eq_ok.1 h
    exact ih (State.fits_step hasm hs hm) h

/-- **Whatever is read has been made by the assembly**, and as an array exactly if the text begins
with a bracket. -/
theorem readWith_made (hasm : asm.Makes P) {text : List Char} {v : α}
    (h : readWith asm text = .ok v) :
    ∃ spaces c r, text = spaces ++ c :: r ∧ (∀ d ∈ spaces, State.isSpace d = true)
      ∧ State.isSpace c = false ∧ P (decide (c = '[')) v := by
  induction text with
  | nil => exact absurd h nofun
  | cons c r ih =>
    obtain ⟨t, ht, hv⟩ := bind_eq_ok.1 h
    obtain ⟨s, hs, ht⟩ := bind_eq_ok.1 ht
    by_cases hc : State.isSpace c = true
    · have hstart : State.step asm State.start c = .ok State.start := if_pos hc
      rw [hstart] at hs
      cases hs
      obtain ⟨spaces, d, rest, rfl, hspaces, hd, hmade⟩ := ih (bind_eq_ok.2 ⟨t, ht, hv⟩)
      refine ⟨c :: spaces, d, rest, rfl, ?_, hd, hmade⟩
      intro e he
      rcases List.mem_cons.1 he with rfl | he
      · exact hc
      · exact hspaces e he
    · have hfirst : State.stepValue asm [] c = .ok s := by
        rw [← hs]
        exact (if_neg hc).symm
      have hfits := State.fits_stepValue hasm (Stands.nil P _) (fun _ => rfl) hfirst
      exact ⟨[], c, r, rfl, nofun, by simpa using hc, made_of_fits hasm hfits ht hv⟩

end QueryScribe.Json
