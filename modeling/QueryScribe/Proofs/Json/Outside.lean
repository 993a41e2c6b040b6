import QueryScribe.Json.Reader
import QueryScribe.Proofs.Outcome

/-!
# Outside of strings

Only a quote leads into a string or a key (`outside_step`), and everywhere else a backslash is a
fault (`step_backslash`).  So no text is read that has a backslash before its first quote, or a
backslash and no quote at all: `readWith_backslash`.
-/

namespace QueryScribe.Json

open QueryScribe.Outcome

variable {α : Type} {asm : Assembly α}

namespace State

/-- The machine is reading neither a string nor a key, and no word with a backslash in it. -/
def Outside (s : State α) : Prop :=
  match s.mode with
  | .key _ _ | .text _ => False
  | .word left _ => '\\' ∉ left
  | _ => True

variable {stack : List (Frame α)} {s t : State α} {c : Char}

/-! ### Characters other than a quote -/

theorem outside_settle (v : α) (stack : List (Frame α)) : (settle v stack).Outside := trivial

theorem outside_skip {next : Except Failure (State α)} (hs : s.Outside)
    (h : (if isSpace c = true then .ok s else next) = .ok t)
    (hnext : next = .ok t → t.Outside) : t.Outside := by
  split at h
  · cases h
    exact hs
  · exact hnext h

theorem outside_closeObject {done : List (String × α)} (h : closeObject asm stack done = .ok t) :
    t.Outside := by
  rw [closeObject] at h
  split at h
  · cases h
    exact outside_settle _ stack
  · cases h

theorem outside_word {left : List Char} {v : α} (hleft : left.contains '\\' = false)
    (h : (.ok ⟨stack, .word left v⟩ : Except Failure (State α)) = .ok t) : t.Outside := by
  cases h
  show '\\' ∉ left
  simpa using hleft

theorem outside_stepValue (hc : c ≠ '"') (h : stepValue asm stack c = .ok t) : t.Outside := by
  rw [stepValue, if_neg hc] at h
  split at h
  · split at h
    · cases h
    · cases h
      trivial
  · split at h
    · split at h
      · cases h
      · cases h
        trivial
    · split at h
      · exact outside_word (by decide) h
      · split at h
        · exact outside_word (by decide) h
        · split at h
          · exact outside_word (by decide) h
          · split at h
            · cases h
              trivial
            · cases h

theorem outside_stepAfter {after : After α} (h : stepAfter asm stack after c = .ok t) :
    t.Outside := by
  have hs : (⟨stack, .after after⟩ : State α).Outside := trivial
  rw [stepAfter.eq_def] at h
  refine outside_skip hs h ?_
  intro h
  cases after with
  | root v => cases h
  | element done =>
    dsimp only at h
    split at h
    · cases h
      trivial
    · split at h
      · cases h
        exact outside_settle _ stack
      · cases h
  | member done =>
    dsimp only at h
    split at h
    · cases h
      trivial
    · split at h
      · exact outside_closeObject h
      · cases h

/-- **Only a quote leads into a string.** -/
theorem outside_step (hs : s.Outside) (hc : c ≠ '"') (h : step asm s c = .ok t) : t.Outside := by
  obtain ⟨stack, mode⟩ := s
  rw [step.eq_def] at h
  cases mode with
  | value =>
    refine outside_skip hs h ?_
    intro h
    exact outside_stepValue hc h
  | firstElement =>
    refine outside_skip hs h ?_
    intro h
    split at h
    · cases h
      exact outside_settle _ stack
    · exact outside_stepValue hc h
  | nextElement done =>
    refine outside_skip hs h ?_
    intro h
    split at h
    · cases h
    · exact outside_stepValue hc h
  | firstKey =>
    refine outside_skip hs h ?_
    intro h
    rw [if_neg hc] at h
    split at h
    · exact outside_closeObject h
    · cases h
  | nextKey done =>
    refine outside_skip hs h ?_
    intro h
    rw [if_neg hc] at h
    split at h
    · cases h
    · cases h
  | colon done key =>
    refine outside_skip hs h ?_
    intro h
    split at h
    · cases h
      trivial
    · cases h
  | word left v =>
    cases left with
    | nil => exact outside_stepAfter h
    | cons d r =>
      dsimp only at h
      split at h
      · split at h
        · cases h
          exact outside_settle v stack
        · cases h
          intro hr
          exact hs (List.mem_cons_of_mem d hr)
      · cases h
  | numeral n =>
    dsimp only at h
    split at h
    · cases h
      trivial
    · split at h
      · exact outside_stepAfter h
      · cases h
    · cases h
  | after after => exact outside_stepAfter h
  | key | text => exact absurd hs id

/-! ### A backslash -/

theorem stepValue_backslash (asm : Assembly α) (stack : List (Frame α)) :
    stepValue asm stack '\\' ≠ .ok t := by
  have h : stepValue asm stack '\\' = fail stack .expectedValue := rfl
  rw [h]
  exact nofun

theorem stepAfter_backslash (asm : Assembly α) (stack : List (Frame α)) (after : After α) :
    stepAfter asm stack after '\\' ≠ .ok t := by
  cases after with
  | root v => exact nofun
  | element done => exact nofun
  | member done => exact nofun

/-- A numeral ends before a backslash, or is none. -/
theorem extend_backslash (n : Numeral) :
    n.extend '\\' = .ok none ∨ n.extend '\\' = .error .invalidNumber := by
  obtain ⟨phase, negative, digits, places, negativePower, power⟩ := n
  cases phase with
  | zero | whole | fraction | power => exact .inl rfl
  | sign | point | mark | powerSign => exact .inr rfl

/-- **Outside of strings a backslash is a fault.** -/
theorem step_backslash (hs : s.Outside) : step asm s '\\' ≠ .ok t := by
  obtain ⟨stack, mode⟩ := s
  cases mode with
  | value => exact stepValue_backslash asm stack
  | firstElement => exact stepValue_backslash asm _
  | nextElement done => exact stepValue_backslash asm _
  | firstKey => exact nofun
  | nextKey done => exact nofun
  | colon done key => exact nofun
  | word left v =>
    cases left with
    | nil => exact stepAfter_backslash asm _ _
    | cons d r =>
      intro h
      have hd : '\\' ≠ d := by
        rintro rfl
        exact hs List.mem_cons_self
      rw [step.eq_def] at h
      dsimp only at h
      rw [if_neg hd] at h
      cases h
  | numeral n =>
    intro h
    rw [step.eq_def] at h
    dsimp only at h
    rcases extend_backslash n with he | he
    · rw [he] at h
      dsimp only at h
      split at h
      · exact stepAfter_backslash asm _ _ h
      · cases h
    · rw [he] at h
      cases h
  | after after => exact stepAfter_backslash asm stack after
  | key | text => exact absurd hs id

end State

/-! ### Texts -/

/-- Without quotes the machine stays outside of strings. -/
theorem outside_foldlM {text : List Char} {s t : State α} (hs : s.Outside) (hq : '"' ∉ text)
    (h : text.foldlM (State.step asm) s = .ok t) : t.Outside := by
  induction text generalizing s with
  | nil =>
    cases h
    exact hs
  | cons c r ih =>
    rw [List.mem_cons, not_or] at hq
    obtain ⟨m, hm, h⟩ := bind_eq_ok.1 h
    exact ih (State.outside_step hs (Ne.symm hq.1) hm) hq.2 h

/-- **No text is read that has a backslash before its first quote.** -/
theorem readWith_backslash {before rest : List Char} {v : α} (hq : '"' ∉ before) :
    readWith asm (before ++ '\\' :: rest) ≠ .ok v := by
  intro h
  have hstart : (State.start : State α).Outside := trivial
  obtain ⟨t, ht, _⟩ := bind_eq_ok.1 h
  rw [List.foldlM_append] at ht
  obtain ⟨s, hs, ht⟩ := bind_eq_ok.1 ht
  obtain ⟨m, hm, _⟩ := bind_eq_ok.1 ht
  exact State.step_backslash (outside_foldlM hstart hq hs) hm

end QueryScribe.Json
