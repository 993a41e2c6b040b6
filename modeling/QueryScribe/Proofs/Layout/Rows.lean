import Mathlib.Data.List.DropRight
import QueryScribe.Proofs.Layout.Counts
import QueryScribe.Proofs.Text.Separation
import QueryScribe.Proofs.Text.Trim

/-!
# Texts and their lines

The layout pass goes over the lines of a text (`rows`) and joins them again.  An empty line
at the end of a text is not seen in its layout, so that `lines`, which has one
behind every line break, serves as well (`format_eq_lines`).  Trimming joined lines drops the
empty lines at both ends (`trim_join`), and the lines of joined lines are just these
(`rows_join`).
-/

namespace QueryScribe.Layout

open QueryScribe.Text QueryScribe.Outcome

/-! ### Joined lines -/

def join (ls : List (List Char)) : List Char := ['\n'].intercalate ls

@[simp] theorem join_singleton (l : List Char) : join [l] = l := List.intercalate_singleton

/-- Texts of lines on both sides of a line break. -/
theorem intercalate_join {xs ys : List (List Char)} (hx : xs ≠ []) (hy : ys ≠ []) :
    ['\n'].intercalate (xs ++ ys) = ['\n'].intercalate xs ++ '\n' :: ['\n'].intercalate ys := by
  cases xs with
  | nil => exact absurd rfl hx
  | cons x xs =>
    cases ys with
    | nil => exact absurd rfl hy
    | cons y ys => rw [List.cons_append, intercalate_cons, intercalate_cons, intercalate_cons]; simp

theorem join_cons {l : List Char} {ls : List (List Char)} (hne : ls ≠ []) :
    join (l :: ls) = l ++ '\n' :: join ls := by
  have := intercalate_join (List.cons_ne_nil l []) hne
  rwa [List.singleton_append, List.intercalate_singleton] at this

theorem join_concat {l : List Char} {ls : List (List Char)} (hne : ls ≠ []) :
    join (ls ++ [l]) = join ls ++ '\n' :: l := by
  have := intercalate_join hne (List.cons_ne_nil l [])
  rwa [List.intercalate_singleton] at this

theorem exists_join_concat (ls : List (List Char)) (l : List Char) :
    ∃ r, join (ls ++ [l]) = r ++ l := ⟨_, intercalate_concat ['\n'] ls l⟩

/-! ### Lines of a text -/

theorem lines_ne_nil (t : List Char) : lines t ≠ [] := by
  cases t with
  | nil => exact List.cons_ne_nil _ _
  | cons c t =>
    rw [lines]
    split
    · exact List.cons_ne_nil _ _
    · split <;> exact List.cons_ne_nil _ _

/-- The one difference between the two ways to take lines: an empty one at the end. -/
theorem lines_eq_rows (t : List Char) : lines t = rows t ∨ lines t = rows t ++ [[]] := by
  induction t with
  | nil => exact .inr rfl
  | cons c r ih =>
    rw [lines, rows]
    split
    · exact ih.imp (congrArg _) (congrArg _)
    · rcases ih with h | h
      · rw [h]
        exact .inl rfl
      · rw [h]
        cases rows r with
        | nil => exact .inl rfl
        | cons l ls => exact .inr rfl

theorem newline_notMem_rows {t : List Char} : ∀ l ∈ rows t, '\n' ∉ l := by
  induction t with
  | nil => exact fun l hl => absurd hl List.not_mem_nil
  | cons c r ih =>
    rw [rows]
    split
    · exact List.forall_mem_cons.2 ⟨List.not_mem_nil, ih⟩
    · rename_i hc
      have hc' : ∀ l : List Char, '\n' ∉ l → '\n' ∉ c :: l := fun l hl => by
        rw [List.mem_cons]
        exact not_or.2 ⟨Ne.symm hc, hl⟩
      cases hr : rows r with
      | nil => exact List.forall_mem_cons.2 ⟨hc' [] List.not_mem_nil, nofun⟩
      | cons l ls =>
        rw [hr] at ih
        obtain ⟨hl, hls⟩ := List.forall_mem_cons.1 ih
        exact List.forall_mem_cons.2 ⟨hc' l hl, hls⟩

theorem rows_append {l : List Char} (hn : '\n' ∉ l) (t : List Char) :
    rows (l ++ '\n' :: t) = l :: rows t := by
  induction l with
  | nil => rw [List.nil_append, rows, if_pos rfl]
  | cons c l ih =>
    rw [List.mem_cons, not_or] at hn
    rw [List.cons_append, rows, if_neg (Ne.symm hn.1), ih hn.2]

theorem rows_of_line {l : List Char} (hn : '\n' ∉ l) (hne : l ≠ []) : rows l = [l] := by
  induction l with
  | nil => exact absurd rfl hne
  | cons c l ih =>
    rw [List.mem_cons, not_or] at hn
    rw [rows, if_neg (Ne.symm hn.1)]
    cases l with
    | nil => rfl
    | cons d l => rw [ih hn.2 (List.cons_ne_nil d l)]

/-- **The lines of joined lines** are just these, if the last of them is not empty. -/
theorem rows_join {ls : List (List Char)} (hn : ∀ l ∈ ls, '\n' ∉ l)
    (hlast : ∀ l ∈ ls.getLast?, l ≠ []) : rows (join ls) = ls := by
  induction ls with
  | nil => rfl
  | cons l ls ih =>
    obtain ⟨hl, hls⟩ := List.forall_mem_cons.1 hn
    cases ls with
    | nil =>
      rw [join_singleton]
      exact rows_of_line hl (hlast l rfl)
    | cons m ls =>
      rw [join_cons (List.cons_ne_nil m ls), rows_append hl, ih hls fun k hk => hlast k ?_]
      rw [List.getLast?_cons_cons]
      exact hk

/-! ### Lines and what the pass makes of them -/

/-- A blank line becomes an empty one and leaves everything as it was. -/
theorem layLine_nil (n : Nat) (ctx : Context) : layLine n ctx [] = .ok ([], ctx) := by
  simp [layLine, indent, pure, Except.pure]

theorem layLines_concat_nil (n : Nat) (ctx : Context) (ls : List (List Char)) :
    layLines n ctx (ls ++ [[]]) = (layLines n ctx ls).map (· ++ [[]]) := by
  induction ls generalizing n ctx with
  | nil =>
    rw [List.nil_append]
    simp only [layLines, layLine_nil, ok_bind]
    split <;> rfl
  | cons l ls ih =>
    rw [List.cons_append, layLines, layLines]
    cases layLine n ctx l with
    | error e => rfl
    | ok p =>
      rw [ok_bind, ok_bind]
      dsimp only
      rw [ih]
      cases layLines (n + 1) p.2 ls <;> rfl

/-- **The layout of a text**, as the pass without its counts makes it. -/
theorem format_eq_rows (raw : List Char) :
    format raw = (layLines 1 .start (rows raw)).map fun texts => trim (join texts) := by
  have hstart : Older 1 Context.start.stack := older_nil 1
  rw [← passLines_layLines hstart, format]
  change (passLines 1 Context.start.tally (rows raw) >>= _) = _
  cases passLines 1 Context.start.tally (rows raw) with
  | error e => rfl
  | ok p =>
    obtain ⟨texts, stack, groups, chained⟩ := p
    cases stack <;> rfl

theorem isBlank_newline : isBlank '\n' = true := by decide

theorem trim_join_concat_nil (ls : List (List Char)) :
    trim (join (ls ++ [[]])) = trim (join ls) := by
  cases ls with
  | nil => rfl
  | cons l ls =>
    rw [join_concat (List.cons_ne_nil l ls), trim_concat_of_blank isBlank_newline]

theorem format_eq_lines (raw : List Char) :
    format raw = (layLines 1 .start (lines raw)).map fun texts => trim (join texts) := by
  rw [format_eq_rows]
  rcases lines_eq_rows raw with h | h
  · rw [h]
  · rw [h, layLines_concat_nil]
    cases layLines 1 .start (rows raw) with
    | error e => rfl
    | ok texts => exact congrArg Except.ok (trim_join_concat_nil texts).symm

/-! ### Empty lines at the ends -/

def strip (ls : List (List Char)) : List (List Char) :=
  (ls.dropWhile List.isEmpty).rdropWhile List.isEmpty

theorem trimStart_join {ls : List (List Char)}
    (h : ∀ l ∈ (ls.dropWhile List.isEmpty).head?, ∀ c ∈ l.head?, isBlank c = false) :
    trimStart (join ls) = join (ls.dropWhile List.isEmpty) := by
  induction ls with
  | nil => rfl
  | cons l ls ih =>
    cases l with
    | nil =>
      rw [List.dropWhile_cons_of_pos List.isEmpty_nil] at h ⊢
      cases ls with
      | nil => rfl
      | cons m ls =>
        rw [join_cons (List.cons_ne_nil m ls), List.nil_append, trimStart,
          List.dropWhile_cons_of_pos isBlank_newline]
        exact ih h
    | cons c l =>
      rw [List.dropWhile_cons_of_neg (by simp)] at h ⊢
      have hhead : ∃ r, join ((c :: l) :: ls) = c :: r := by
        rw [join, intercalate_cons, List.cons_append]
        exact ⟨_, rfl⟩
      obtain ⟨r, hr⟩ := hhead
      rw [hr]
      exact trimStart_cons_of_not_blank r (h _ rfl c rfl)

theorem trimEnd_join {ls : List (List Char)}
    (h : ∀ l ∈ ls, ∀ c ∈ l.getLast?, isBlank c = false) :
    trimEnd (join ls) = join (ls.rdropWhile List.isEmpty) := by
  induction ls using List.reverseRecOn with
  | nil => rfl
  | append_singleton ls l ih =>
    rcases List.eq_nil_or_concat l with rfl | ⟨r, c, rfl⟩
    · rw [List.rdropWhile_concat_pos _ _ _ List.isEmpty_nil,
        ← ih fun m hm => h m (List.mem_append_left _ hm)]
      cases ls with
      | nil => rfl
      | cons m ls =>
        rw [join_concat (List.cons_ne_nil m ls), trimEnd_concat_of_blank isBlank_newline]
    · rw [List.concat_eq_append] at h ⊢
      rw [List.rdropWhile_concat_neg _ _ _ (by simp)]
      obtain ⟨s, hs⟩ := exists_join_concat ls (r ++ [c])
      rw [hs, ← List.append_assoc]
      exact trimEnd_concat_of_not_blank _
        (h _ (List.mem_append_right _ List.mem_cons_self) c List.getLast?_concat)

/-- **Trimming joined lines** drops the empty lines at their ends. -/
theorem trim_join {ls : List (List Char)}
    (hfirst : ∀ l ∈ (ls.dropWhile List.isEmpty).head?, ∀ c ∈ l.head?, isBlank c = false)
    (hlast : ∀ l ∈ ls, ∀ c ∈ l.getLast?, isBlank c = false) : trim (join ls) = join (strip ls) := by
  rw [trim, trimStart_join hfirst, strip]
  exact trimEnd_join fun l hl => hlast l ((List.dropWhile_suffix _).subset hl)

end QueryScribe.Layout
