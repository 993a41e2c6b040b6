import QueryScribe.Code.Layout
import QueryScribe.Code.StringLiteral
import QueryScribe.Proofs.Text.Digits

/-!
# What the scan of a line passes over

`Layout.scan` finds the brackets of a line that stand outside its literals and
comments.  A piece of text is passed over with certain brackets when the scan of
the piece and of whatever follows it gives these brackets and then those of the rest:
`Passes text brackets`.  Passing is closed under laying pieces end to end, so the
brackets of generated code can be read off its pieces.

Two pieces do all the work.  `passes_of_plain` says that characters without a
meaning to the scan give nothing, and `passes_write` that a string literal gives
nothing whatever the string: each escape that the writer uses is skipped by the
scan's rule to take the character after a backslash as it is.
-/

namespace QueryScribe.Layout

open QueryScribe.Text

/-- The characters that mean something to the scan: brackets, quotes and the slash. -/
def marks : List Char := ['(', '[', '\x7b', ')', ']', '\x7d', '"', '\'', '\x60', '/']

/-- A character that means nothing to the scan. -/
def isPlain (c : Char) : Bool := !marks.contains c

/-- A text that the scan passes over, finding certain brackets on its way. -/
def Passes (text brackets : List Char) : Prop :=
  ∀ r, scan (text ++ r) = (scan r).map (brackets ++ ·)

@[simp] theorem scan_nil : scan [] = .ok [] := by rw [scan]

/-- A class of characters is plain when none of the marks belongs to it. -/
theorem isPlain_of_class {p : Char → Bool} (hp : marks.all (fun d => !p d) = true) {c : Char}
    (h : p c = true) : isPlain c = true := by
  rw [isPlain, Bool.not_eq_true', List.contains_eq_mem, decide_eq_false_iff_not]
  intro hc
  have := List.all_eq_true.1 hp c hc
  rw [h] at this
  exact absurd this (by decide)

theorem scan_cons_of_plain {c : Char} (h : isPlain c = true) (r : List Char) :
    scan (c :: r) = scan r := by
  simp only [isPlain, marks, List.contains_eq_mem, Bool.not_eq_true', decide_eq_false_iff_not,
    List.mem_cons, List.not_mem_nil, or_false, not_or] at h
  obtain ⟨h1, h2, h3, h4, h5, h6, h7, h8, h9, h10⟩ := h
  rw [scan]
  simp [isOpener, isCloser, h1, h2, h3, h4, h5, h6, h7, h8, h9, h10]

theorem scan_cons_of_bracket {c : Char} (h : (isOpener c || isCloser c) = true) (r : List Char) :
    scan (c :: r) = (scan r).map (c :: ·) := by
  rw [scan, if_pos h]

theorem map_append_map {ε : Type} (e : Except ε (List Char)) (a b : List Char) :
    (e.map (b ++ ·)).map (a ++ ·) = e.map ((a ++ b) ++ ·) := by
  cases e with
  | error e => rfl
  | ok w => simp [Except.map]

/-! ### Pieces -/

theorem Passes.scan_eq {t w : List Char} (h : Passes t w) : scan t = .ok w := by
  have := h []
  rw [List.append_nil, scan_nil] at this
  rw [this]
  simp [Except.map]

theorem passes_nil : Passes [] [] := by
  intro r
  cases hr : scan r <;> simp [hr, Except.map]

theorem Passes.append {a b x y : List Char} (ha : Passes a x) (hb : Passes b y) :
    Passes (a ++ b) (x ++ y) := by
  intro r
  rw [List.append_assoc, ha, hb, map_append_map]

theorem passes_bracket {c : Char} (h : (isOpener c || isCloser c) = true) : Passes [c] [c] := by
  intro r
  rw [List.singleton_append, scan_cons_of_bracket h]
  rfl

theorem passes_of_plain {t : List Char} (h : ∀ c ∈ t, isPlain c = true) : Passes t [] := by
  induction t with
  | nil => exact passes_nil
  | cons c t ih =>
    intro r
    rw [List.cons_append, scan_cons_of_plain (h c (by simp))]
    exact ih (fun d hd => h d (by simp [hd])) r

/-! ### String literals -/

/-- Characters of a literal that neither end it nor begin an escape. -/
theorem scanQuoted_append {t : List Char} (h : ∀ c ∈ t, c ≠ '\\' ∧ c ≠ '"') (r : List Char) :
    scanQuoted '"' (t ++ r) = scanQuoted '"' r := by
  induction t with
  | nil => rfl
  | cons c t ih =>
    obtain ⟨hb, hq⟩ := h c (by simp)
    rw [List.cons_append, scanQuoted, if_neg hb, if_neg hq]
    exact ih fun d hd => h d (by simp [hd])

theorem hexFixed_ne (width n : Nat) : ∀ c ∈ hexFixed width n, c ≠ '\\' ∧ c ≠ '"' := by
  intro c hc
  have digits : ∀ d < 16, Nat.digitChar d ≠ '\\' ∧ Nat.digitChar d ≠ '"' := by decide
  obtain ⟨d, hd, rfl⟩ := exists_of_mem_hexFixed hc
  exact digits d hd

/-- What is written for one character: itself, or a backslash and what neither ends a literal nor
begins an escape behind the letter. -/
theorem writeChar_cases (c : Char) :
    (StringLiteral.writeChar c = [c] ∧ ∀ d ∈ [c], d ≠ '\\' ∧ d ≠ '"')
      ∨ ∃ e t, StringLiteral.writeChar c = '\\' :: e :: t ∧ ∀ d ∈ t, d ≠ '\\' ∧ d ≠ '"' := by
  rw [StringLiteral.writeChar]
  split
  · exact .inr ⟨_, [], rfl, nofun⟩
  · rename_i h
    have hc : c ≠ '\\' ∧ c ≠ '"' :=
      ⟨fun e => by simp [e, StringLiteral.escapeLetter?] at h,
        fun e => by simp [e, StringLiteral.escapeLetter?] at h⟩
    split
    · exact .inl ⟨rfl, by simpa using hc⟩
    · split
      · exact .inr ⟨_, _, rfl, hexFixed_ne _ _⟩
      · split
        · exact .inr ⟨_, _, rfl, hexFixed_ne _ _⟩
        · exact .inr ⟨_, _, rfl, hexFixed_ne _ _⟩

/-- **One character of a literal.**  Whichever of its forms it is written in, the scan goes on
inside the literal after it. -/
theorem scanQuoted_writeChar (c : Char) (r : List Char) :
    scanQuoted '"' (StringLiteral.writeChar c ++ r) = scanQuoted '"' r := by
  obtain ⟨hc, hself⟩ | ⟨e, t, hc, ht⟩ := writeChar_cases c
  · rw [hc, scanQuoted_append hself]
  · rw [hc, List.cons_append, List.cons_append, scanQuoted, if_pos rfl, scanEscaped,
      scanQuoted_append ht]

/-- **A string literal is opaque to the scan.** -/
theorem passes_write (s : String) : Passes (StringLiteral.write s) [] := by
  intro r
  have body (t : List Char) :
      scanQuoted '"' (t.flatMap StringLiteral.writeChar ++ '"' :: r) = scan r := by
    induction t with
    | nil => rw [List.flatMap_nil, List.nil_append, scanQuoted]; rfl
    | cons c t ih => rw [List.flatMap_cons, List.append_assoc, scanQuoted_writeChar, ih]
  have open_ (t : List Char) : scan ('"' :: t) = scanQuoted '"' t := by
    rw [scan]; rfl
  rw [StringLiteral.write, List.cons_append, List.cons_append, List.append_assoc, open_,
    List.singleton_append, body]
  cases scan r <;> rfl

/-! ### Blanks at the ends of a line -/

theorem isPlain_of_blank {c : Char} (h : isBlank c = true) : isPlain c = true :=
  isPlain_of_class (by decide) h

theorem scan_trimStart (t : List Char) : scan (trimStart t) = scan t := by
  induction t with
  | nil => rfl
  | cons c t ih =>
    cases hc : isBlank c with
    | false => rw [trimStart_cons_of_not_blank t hc]
    | true =>
      rw [scan_cons_of_plain (isPlain_of_blank hc), ← ih, trimStart, List.dropWhile_cons_of_pos hc,
        trimStart]

/-- A blank at the end neither ends a literal nor begins anything. -/
theorem scan_append_blank {c : Char} (h : isBlank c = true) (t : List Char) :
    scan (t ++ [c]) = scan t
      ∧ (∀ q, isBlank q = false → scanQuoted q (t ++ [c]) = scanQuoted q t
        ∧ scanEscaped q (t ++ [c]) = scanEscaped q t)
      ∧ scanRaw (t ++ [c]) = scanRaw t := by
  have hslash : c ≠ '\\' := fun e => by rw [e] at h; exact absurd h (by decide)
  have hgrave : c ≠ '\x60' := fun e => by rw [e] at h; exact absurd h (by decide)
  induction t with
  | nil =>
    refine ⟨by rw [List.nil_append, scan_cons_of_plain (isPlain_of_blank h)], fun q hq => ?_, ?_⟩
    · have hne : c ≠ q := fun e => by rw [e, hq] at h; exact absurd h (by decide)
      have hend : scanQuoted q [c] = scanQuoted q [] := by simp [scanQuoted, hslash, hne]
      exact ⟨hend, by simp [scanEscaped, scanQuoted]⟩
    · simp [scanRaw, hgrave]
  | cons d t ih =>
    obtain ⟨ihScan, ihQuoted, ihRaw⟩ := ih
    refine ⟨?_, fun q hq => ⟨?_, ?_⟩, ?_⟩
    · have hhead : (t ++ [c]).head? = some '/' ↔ t.head? = some '/' := by
        cases t with
        | nil =>
          have : c ≠ '/' := fun e => by rw [e] at h; exact absurd h (by decide)
          simpa using this
        | cons e t => simp
      rw [List.cons_append, scan, scan, ihScan, ihRaw]
      by_cases hq : d = '"' ∨ d = '\''
      · have : isBlank d = false := by rcases hq with rfl | rfl <;> decide
        rw [(ihQuoted d this).1]
        simp only [hhead]
      · have hq' : ¬ ((decide (d = '"') || decide (d = '\'')) = true) := by simpa using hq
        rw [if_neg hq', if_neg hq']
        simp only [hhead]
    · rw [List.cons_append, scanQuoted, scanQuoted, (ihQuoted q hq).1, (ihQuoted q hq).2, ihScan]
    · rw [List.cons_append, scanEscaped, scanEscaped, (ihQuoted q hq).1]
    · rw [List.cons_append, scanRaw, scanRaw, ihScan, ihRaw]

theorem scan_trimEnd (t : List Char) : scan (trimEnd t) = scan t := by
  suffices h : ∀ r : List Char, scan (r.dropWhile isBlank).reverse = scan r.reverse by
    rw [trimEnd, h, List.reverse_reverse]
  intro r
  induction r with
  | nil => rfl
  | cons c r ih =>
    cases hc : isBlank c with
    | false => rw [List.dropWhile_cons_of_neg (by simp [hc])]
    | true => rw [List.dropWhile_cons_of_pos hc, List.reverse_cons, (scan_append_blank hc _).1, ih]

/-- **Trimming a line keeps its brackets**, and the literal that it leaves open if there is one. -/
theorem scan_trim (t : List Char) : scan (trim t) = scan t := by
  rw [trim, scan_trimEnd, scan_trimStart]

/-- The closers that a line starts with are the first of its brackets. -/
theorem takeWhile_prefix_of_scan {t w : List Char} (h : scan t = .ok w) :
    t.takeWhile isCloser <+: w := by
  induction t generalizing w with
  | nil => exact List.nil_prefix
  | cons c t ih =>
    cases hc : isCloser c with
    | false => rw [List.takeWhile_cons_of_neg (by simp [hc])]; exact List.nil_prefix
    | true =>
      rw [scan_cons_of_bracket (by rw [hc, Bool.or_true])] at h
      cases hs : scan t with
      | error e => rw [hs] at h; simp [Except.map] at h
      | ok v =>
        rw [hs] at h
        simp only [Except.map, Except.ok.injEq] at h
        subst h
        rw [List.takeWhile_cons_of_pos hc]
        exact (List.prefix_cons_inj c).2 (ih hs)

end QueryScribe.Layout
