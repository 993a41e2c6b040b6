import QueryScribe.Proofs.Layout.Ranges
import QueryScribe.Proofs.Layout.Unclosed

/-!
# Closing lines

In ranged code a line that starts with closers stands under the line that opened the brackets:
`Ranged.linedUp`.  The layout pass alone does not bring that about, since a line may also
close a part of what another line has opened.  What does is the form of the code, in which the last
line of a range closes all that its first line leaves open, and the brackets of the lines between
are nested (`Ranged.nested`).
-/

namespace QueryScribe.Layout

open QueryScribe.Text

def leadingTabs (line : List Char) : Nat := (line.takeWhile (· == '\t')).length

/-- A line closes what an earlier line leaves open and nothing else, and stands under it; the lines
between the two are further to the right. -/
structure Closes (opener : List Char) (between : List (List Char)) (row : List Char) : Prop where
  brackets : ∃ opened, Leaves id (word opener) opened
    ∧ (trim row).takeWhile isCloser = closers opened
  nested : Nested (between.flatMap word)
  tabs : leadingTabs row = leadingTabs opener
  deeper : ∀ l ∈ between, leadingTabs opener < leadingTabs l

/-- Each line that starts with closers closes what one earlier line leaves open. -/
def LinedUp (ls : List (List Char)) : Prop :=
  ∀ before row after, ls = before ++ row :: after → (trim row).takeWhile isCloser ≠ [] →
    ∃ earlier opener between, before = earlier ++ opener :: between ∧ Closes opener between row

/-! ### Lines behind their tabs -/

theorem trim_tabs (k : Nat) {a : List Char} (head : ∃ c r, a = c :: r ∧ isBlank c = false)
    (last : Ends a) : trim (tabs k ++ a) = a := by
  have htrim := trim_of_ends head last
  obtain ⟨c, r, rfl, _⟩ := head
  rw [← indent_cons]
  exact trim_indent k (htrim ▸ trimmed_trim _)

theorem leadingTabs_tabs (k : Nat) {a : List Char} (head : ∃ c r, a = c :: r ∧ isBlank c = false) :
    leadingTabs (tabs k ++ a) = k := by
  obtain ⟨c, r, rfl, hc⟩ := head
  have htab : ¬ (c == '\t') = true := fun h => by
    rw [beq_iff_eq.1 h] at hc
    exact absurd hc (by decide)
  have htabs : ∀ d ∈ tabs k, (d == '\t') = true := fun d hd => by
    rw [List.eq_of_mem_replicate hd]
    rfl
  rw [leadingTabs, List.takeWhile_append_of_pos htabs, List.takeWhile_cons_of_neg (by exact htab),
    List.append_nil, tabs, List.length_replicate]

theorem Begins.head {a : List Char} (h : Begins a) : ∃ c r, a = c :: r ∧ isBlank c = false := by
  obtain ⟨c, r, hr, hc, _⟩ := h
  exact ⟨c, r, hr, hc⟩

theorem Leads.takeWhile_isCloser {a opened : List Char} (h : Leads a opened) (he : Ends a)
    (k : Nat) : (trim (tabs k ++ a)).takeWhile isCloser = [] := by
  rw [trim_tabs k h.begins.head he]
  obtain ⟨c, r, rfl, _, hc⟩ := h.begins
  exact List.takeWhile_cons_of_neg (by simp [hc])

theorem Leaves.map_id {α : Type} {f : α → Char} {w s : List α} (h : Leaves f w s) :
    Leaves id (w.map f) (s.map f) := by
  induction h with
  | nested hw => exact .nested (by rwa [List.map_id])
  | opener _ ho hinner ih =>
    rw [List.map_append, List.map_cons, List.map_cons]
    exact .opener ih ho (by rwa [List.map_id])

/-- What a line that leads opens is what its brackets leave open. -/
theorem Leads.leaves {a opened : List Char} (h : Leads a opened) (he : Ends a) (k : Nat) :
    Leaves id (word (tabs k ++ a)) opened := by
  obtain ⟨w, hw, hf⟩ := h.opens
  have hword : word (tabs k ++ a) = w :=
    word_eq (by rw [trim_tabs k h.begins.head he, hw.scan_eq])
  have hfold := foldlM_bracket_iff.1 (hf 0 [])
  rw [← hword, List.append_nil] at hfold
  have hleaves := leaves_of_foldlM (isBracket_placed (isBracket_word (tabs k ++ a))) hfold
  have := hleaves.map_id
  rwa [map_opener_placed, ← placed, map_opener_placed] at this

/-- Brackets that a word leaves open are closed behind a nested word. -/
theorem Leaves.close {w s v : List Char} (h : Leaves id w s) (hv : Nested v) :
    Nested (w ++ (v ++ closers s)) := by
  induction h generalizing v with
  | nested hw =>
    rw [List.map_id] at hw
    exact hw.append (by simpa [closers] using hv)
  | opener _ ho hinner ih =>
    rw [List.map_id] at hinner
    have := ih ((hinner.append hv).wrap_opener ho .nil)
    simpa [closers, List.append_assoc] using this

section Closing

variable {opened e : List Char} (hne : opened ≠ []) (he : Ending e) (k : Nat)
include hne he

theorem trim_closing : trim (tabs k ++ (closers opened ++ e)) = closers opened ++ e :=
  trim_tabs k (head_closing hne _) ((ends_closers hne).ending he)

theorem word_closing : word (tabs k ++ (closers opened ++ e)) = closers opened :=
  word_eq (by rw [trim_closing hne he, scan_closing he])

end Closing

/-! ### Ranged code -/

/-- **The brackets of ranged code are nested.** -/
theorem Ranged.nested {k : Nat} {t : List Char} (h : Ranged k t) :
    Nested ((lines t).flatMap word) := by
  induction h with
  | @line k a ha he =>
    rw [lines_of_leads ha, List.flatMap_singleton]
    have := (ha.leaves he k).nested_map
    rwa [List.map_id] at this
  | @hanging k _ _ _ _ ha hea hne he _ ih =>
    rw [lines_hanging ha he, List.flatMap_cons, List.flatMap_append, List.flatMap_singleton,
      word_closing hne he]
    exact (ha.leaves hea k).close ih
  | join _ _ ihs iht =>
    rw [lines_join, List.flatMap_append]
    exact ihs.append iht
  | deeper _ ih => exact ih

theorem Ranged.le_leadingTabs {k : Nat} {t : List Char} (h : Ranged k t) :
    ∀ l ∈ lines t, k ≤ leadingTabs l :=
  h.forall_lines (P := fun k l => k ≤ leadingTabs l)
    (fun ha _ => (leadingTabs_tabs _ ha.begins.head).ge)
    (fun hne _ => (leadingTabs_tabs _ (head_closing hne _)).ge) Nat.le_of_succ_le

/-- No line of ranged code is blank, and none ends in white space. -/
theorem Ranged.ends {k : Nat} {t : List Char} (h : Ranged k t) : ∀ l ∈ lines t, Ends l :=
  h.forall_lines (P := fun _ l => Ends l) (fun _ he => he.prepend _)
    (fun hne he => ((ends_closers hne).ending he).prepend _) id

theorem Ranged.rows_eq {k : Nat} {t : List Char} (h : Ranged k t) : rows t = lines t := by
  rcases lines_eq_rows t with he | he
  · exact he.symm
  · have hnil : [] ∈ lines t := he ▸ List.mem_append_right _ (List.mem_singleton_self [])
    exact absurd rfl (h.ends [] hnil).ne_nil

/-! ### Lines that line up -/

theorem linedUp_single {l : List Char} (h : (trim l).takeWhile isCloser = []) : LinedUp [l] := by
  intro before row after hsplit hrow
  cases before with
  | nil =>
    obtain ⟨rfl, _⟩ := List.cons.inj hsplit
    exact absurd h hrow
  | cons b before =>
    exact absurd (List.cons.inj hsplit).2.symm (List.append_ne_nil_of_right_ne_nil _
      (List.cons_ne_nil _ _))

theorem LinedUp.append {ls ms : List (List Char)} (hl : LinedUp ls) (hm : LinedUp ms) :
    LinedUp (ls ++ ms) := by
  intro before row after hsplit hrow
  have second (rest : List (List Char)) (hbefore : before = ls ++ rest)
      (hms : ms = rest ++ row :: after) :
      ∃ earlier opener between, before = earlier ++ opener :: between
        ∧ Closes opener between row := by
    obtain ⟨earlier, opener, between, rfl, hcloses⟩ := hm rest row after hms hrow
    exact ⟨ls ++ earlier, opener, between, by rw [hbefore, List.append_assoc], hcloses⟩
  rcases List.append_eq_append_iff.1 hsplit with ⟨rest, hbefore, hms⟩ | ⟨rest, rfl, hafter⟩
  · exact second rest hbefore hms
  · cases rest with
    | nil => exact second [] (by simp) hafter.symm
    | cons r rest =>
      obtain ⟨rfl, _⟩ := List.cons.inj hafter
      exact hl before row rest rfl hrow

/-- Lines between one that opens brackets and one that closes these. -/
theorem LinedUp.enclose {first last : List Char} {inner : List (List Char)}
    (hfirst : (trim first).takeWhile isCloser = []) (hinner : LinedUp inner)
    (h : Closes first inner last) : LinedUp (first :: (inner ++ [last])) := by
  intro before row after hsplit hrow
  rcases List.eq_nil_or_concat' after with rfl | ⟨after, l, rfl⟩
  · rw [← List.cons_append] at hsplit
    obtain ⟨rfl, he⟩ := List.append_inj' hsplit rfl
    obtain rfl := List.singleton_inj.1 he
    exact ⟨[], first, inner, rfl, h⟩
  · rw [← List.cons_append, ← List.cons_append, ← List.append_assoc] at hsplit
    exact (linedUp_single hfirst).append hinner before row after
      (List.append_inj' hsplit rfl).1 hrow

/-- **In ranged code closing lines stand under the lines that opened the brackets.** -/
theorem Ranged.linedUp {k : Nat} {t : List Char} (h : Ranged k t) : LinedUp (lines t) := by
  induction h with
  | @line k a ha he =>
    rw [lines_of_leads ha]
    exact linedUp_single (ha.takeWhile_isCloser he k)
  | @hanging k a opened inner e ha hea hne he hinner ih =>
    rw [lines_hanging ha he]
    refine .enclose (ha.takeWhile_isCloser hea k) ih ⟨⟨opened, ha.leaves hea k, ?_⟩,
      hinner.nested, ?_, fun l hl => ?_⟩
    · rw [trim_closing hne he, takeWhile_closing he]
    · rw [leadingTabs_tabs k (head_closing hne _), leadingTabs_tabs k ha.begins.head]
    · rw [leadingTabs_tabs k ha.begins.head]
      exact hinner.le_leadingTabs l hl
  | join _ _ ihs iht =>
    rw [lines_join]
    exact ihs.append iht
  | deeper _ ih => exact ih

end QueryScribe.Layout
