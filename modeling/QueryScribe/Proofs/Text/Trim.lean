import QueryScribe.Text.Blank

/-!
# Trimmed texts

A text is trimmed when it neither begins nor ends with white space.  Trimming a text gives a
trimmed one (`trimmed_trim`) and leaves a trimmed one as it is (`Trimmed.trim_eq`).
-/

namespace QueryScribe.Text

/-- A text without white space at its ends. -/
structure Trimmed (t : List Char) : Prop where
  head : ∀ c ∈ t.head?, isBlank c = false
  last : ∀ c ∈ t.getLast?, isBlank c = false

theorem trimStart_eq_self {t : List Char} (h : ∀ c ∈ t.head?, isBlank c = false) :
    trimStart t = t := by
  cases t with
  | nil => rfl
  | cons c r => exact trimStart_cons_of_not_blank r (h c rfl)

theorem trimEnd_eq_self {t : List Char} (h : ∀ c ∈ t.getLast?, isBlank c = false) :
    trimEnd t = t := by
  rcases List.eq_nil_or_concat t with rfl | ⟨r, c, rfl⟩
  · rfl
  · rw [List.concat_eq_append] at h ⊢
    exact trimEnd_concat_of_not_blank r (h c List.getLast?_concat)

theorem Trimmed.trim_eq {t : List Char} (h : Trimmed t) : trim t = t := by
  rw [trim, trimStart_eq_self h.head, trimEnd_eq_self h.last]

theorem trimEnd_append (s : List Char) : ∃ blanks, s = trimEnd s ++ blanks := by
  refine ⟨(s.reverse.takeWhile isBlank).reverse, ?_⟩
  rw [trimEnd, ← List.reverse_append, List.takeWhile_append_dropWhile, List.reverse_reverse]

/-- A trimmed text does not begin with white space. -/
theorem isBlank_of_trim {s r : List Char} {c : Char} (h : trim s = c :: r) : isBlank c = false := by
  obtain ⟨blanks, hs⟩ := trimEnd_append (trimStart s)
  rw [trim] at h
  rw [h, List.cons_append] at hs
  have hhead := List.head?_dropWhile_not isBlank s
  rw [← trimStart, hs] at hhead
  simpa using hhead

theorem trimmed_trim (t : List Char) : Trimmed (trim t) := by
  refine ⟨fun c hc => ?_, fun c hc => ?_⟩
  · obtain ⟨r, hr⟩ := List.head?_eq_some_iff.1 hc
    exact isBlank_of_trim hr
  · have hlast := List.head?_dropWhile_not isBlank (trimStart t).reverse
    rw [trim, trimEnd, List.getLast?_reverse] at hc
    rw [Option.mem_def.1 hc] at hlast
    simpa using hlast

@[simp] theorem trim_trim (t : List Char) : trim (trim t) = trim t := (trimmed_trim t).trim_eq

/-- White space behind a text is not seen behind its end. -/
theorem trimEnd_concat_of_blank {c : Char} (h : isBlank c = true) (t : List Char) :
    trimEnd (t ++ [c]) = trimEnd t := by
  rw [trimEnd, List.reverse_append, List.reverse_singleton, List.singleton_append,
    List.dropWhile_cons_of_pos h, trimEnd]

theorem trim_concat_of_blank {c : Char} (h : isBlank c = true) (t : List Char) :
    trim (t ++ [c]) = trim t := by
  rw [trim, trim, trimStart, List.dropWhile_append]
  split
  · rename_i hall
    rw [List.isEmpty_iff] at hall
    rw [trimStart, hall, List.dropWhile_cons_of_pos h]
    rfl
  · exact trimEnd_concat_of_blank h _

end QueryScribe.Text
