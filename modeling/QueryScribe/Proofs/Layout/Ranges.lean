import QueryScribe.Proofs.Layout.Lines

/-!
# Ranges of lines

`Ranged k t` says how laid-out code looks behind `k` tabs: lines, and between them ranges of lines
of which the first opens some brackets, the last closes just these, and the others stand
further to the right.  Its cases follow those of settled texts, so that a settled text is ranged
wherever it is laid out; what a reader of the code sees of its brackets and its
tabs is proved from these cases alone.
-/

namespace QueryScribe.Layout

open QueryScribe.Text

/-- Code behind at least so many tabs, in ranges of lines. -/
inductive Ranged : Nat → List Char → Prop
  | line {k : Nat} {a : List Char} : Leads a [] → Ends a → Ranged k (tabs k ++ a)
  | hanging {k : Nat} {a opened inner e : List Char} : Leads a opened → Ends a → opened ≠ [] →
      Ending e → Ranged (k + 1) inner →
      Ranged k (tabs k ++ a ++ '\n' :: (inner ++ '\n' :: (tabs k ++ (closers opened ++ e))))
  | join {k : Nat} {s t : List Char} : Ranged k s → Ranged k t → Ranged k (s ++ '\n' :: t)
  | deeper {k : Nat} {t : List Char} : Ranged (k + 1) t → Ranged k t

/-! ### The lines of ranged code -/

theorem newline_notMem_tabs (k : Nat) : '\n' ∉ tabs k := fun h =>
  absurd (List.eq_of_mem_replicate h) (by decide)

theorem lines_of_leads {a opened : List Char} (h : Leads a opened) (k : Nat) :
    lines (tabs k ++ a) = [tabs k ++ a] :=
  lines_of_line (by rw [List.mem_append]; exact not_or.2 ⟨newline_notMem_tabs k, h.line⟩)

theorem lines_hanging {a opened e : List Char} (ha : Leads a opened) (he : Ending e) (k : Nat)
    (inner : List Char) :
    lines (tabs k ++ a ++ '\n' :: (inner ++ '\n' :: (tabs k ++ (closers opened ++ e))))
      = (tabs k ++ a) :: (lines inner ++ [tabs k ++ (closers opened ++ e)]) := by
  have hlast : '\n' ∉ tabs k ++ (closers opened ++ e) := by
    simp [newline_notMem_tabs, newline_notMem_closers, he.newline_notMem]
  rw [lines_join, lines_join, lines_of_leads ha, lines_of_line hlast, List.singleton_append]

/-- The lines of ranged code, one by one: a property of each that its tabs do not matter to. -/
theorem Ranged.forall_lines {P : Nat → List Char → Prop}
    (hline : ∀ {k a opened}, Leads a opened → Ends a → P k (tabs k ++ a))
    (hclose : ∀ {k opened e}, opened ≠ [] → Ending e → P k (tabs k ++ (closers opened ++ e)))
    (hdeeper : ∀ {k l}, P (k + 1) l → P k l) {k : Nat} {t : List Char} (h : Ranged k t) :
    ∀ l ∈ lines t, P k l := by
  induction h with
  | @line k a ha he =>
    intro l hl
    rw [lines_of_leads ha, List.mem_singleton] at hl
    exact hl ▸ hline ha he
  | @hanging k a opened inner e ha hea hne he _ ih =>
    intro l hl
    rw [lines_hanging ha he, List.mem_cons, List.mem_append, List.mem_singleton] at hl
    rcases hl with rfl | hl | rfl
    · exact hline ha hea
    · exact hdeeper (ih l hl)
    · exact hclose hne he
  | join _ _ ihs iht =>
    intro l hl
    rw [lines_join, List.mem_append] at hl
    exact hl.elim (ihs l) (iht l)
  | deeper _ ih => exact fun l hl => hdeeper (ih l hl)

end QueryScribe.Layout
