import QueryScribe.Proofs.Code.Standing

/-!
# Templates of code

A template is text with gaps: some for names from the two packages, and string literals,
which are kept apart from other text.  `Code.pieces` is the template of a piece of code with the
tabs of its lines, and `fill_pieces` says that the code itself is the template with the packages
filled in.  The template is made without them.

`StringLiteral.literals` finds the string literals of a text.  If there is no quote in the text
around them and in the names, what it finds are the literals of the template
(`literals_fill`).
-/

namespace QueryScribe

open QueryScribe.Text QueryScribe.Layout

/-! ### The literals of a text -/

namespace StringLiteral

mutual
/-- The string literals of a text, with their quotes. -/
def literals : List Char → List (List Char)
  | [] => []
  | c :: r => if c = '"' then literalsIn ['"'] r else literals r
/-- The string literals of a text that begins in one of them, given what stands before, the last
character first. -/
def literalsIn (before : List Char) : List Char → List (List Char)
  | [] => []
  | c :: r =>
    if c = '\\' then literalsEscaped (c :: before) r
    else if c = '"' then (c :: before).reverse :: literals r
    else literalsIn (c :: before) r
/-- The string literals of a text that begins behind a backslash in one of them. -/
def literalsEscaped (before : List Char) : List Char → List (List Char)
  | [] => []
  | c :: r => literalsIn (c :: before) r
end

example : literals "f(\"a\\\"(\", x, \"\")".toList = ["\"a\\\"(\"".toList, "\"\"".toList] := by
  decide +kernel

theorem literals_append {t : List Char} (ht : '"' ∉ t) (r : List Char) :
    literals (t ++ r) = literals r := by
  induction t with
  | nil => rfl
  | cons c t ih =>
    rw [List.mem_cons, not_or] at ht
    rw [List.cons_append, literals, if_neg (Ne.symm ht.1), ih ht.2]

theorem literalsIn_append {t : List Char} (ht : ∀ c ∈ t, c ≠ '\\' ∧ c ≠ '"')
    (before r : List Char) : literalsIn before (t ++ r) = literalsIn (t.reverse ++ before) r := by
  induction t generalizing before with
  | nil => rfl
  | cons c t ih =>
    obtain ⟨hb, hq⟩ := ht c List.mem_cons_self
    rw [List.cons_append, literalsIn, if_neg hb, if_neg hq, ih fun d hd => ht d (by simp [hd]),
      List.reverse_cons, List.append_assoc, List.singleton_append]

/-- What is written for one character does not end a literal. -/
theorem literalsIn_writeChar (c : Char) (before r : List Char) :
    literalsIn before (writeChar c ++ r) = literalsIn ((writeChar c).reverse ++ before) r := by
  obtain ⟨hc, hself⟩ | ⟨e, t, hc, ht⟩ := writeChar_cases c
  · rw [hc, literalsIn_append hself]
  · rw [hc, List.cons_append, List.cons_append, literalsIn, if_pos rfl, literalsEscaped,
      literalsIn_append ht]
    simp

/-- **A written literal is found as a whole.** -/
theorem literals_write (s : String) (r : List Char) :
    literals (write s ++ r) = write s :: literals r := by
  have body (t before : List Char) : literalsIn before (t.flatMap writeChar ++ '"' :: r)
      = (before.reverse ++ (t.flatMap writeChar ++ ['"'])) :: literals r := by
    induction t generalizing before with
    | nil =>
      rw [List.flatMap_nil, List.nil_append, literalsIn, if_neg (by decide), if_pos rfl]
      simp
    | cons c t ih =>
      rw [List.flatMap_cons, List.append_assoc, literalsIn_writeChar, ih]
      simp
  have hwrite : write s ++ r = '"' :: (s.toList.flatMap writeChar ++ '"' :: r) := by
    simp [write]
  rw [hwrite, literals, if_pos rfl, body]
  rfl

end StringLiteral

/-! ### Templates -/

inductive Piece where
  | text (t : List Char)
  /-- The literal of a string. -/
  | quoted (s : String)
  /-- A gap for a name from a package. -/
  | slot (package : Package) (name : String)

namespace Piece

def fill (p : Packages) : Piece → List Char
  | text t => t
  | quoted s => StringLiteral.write s
  | slot package name => Code.qualified p package name

def string? : Piece → Option String
  | quoted s => some s
  | _ => none

/-- No quote stands in the text, and none in the name. -/
def Unquoted : Piece → Prop
  | text t => '"' ∉ t
  | quoted _ => True
  | slot _ name => '"' ∉ name.toList

end Piece

/-- Text with gaps for the names of packages. -/
abbrev Template := List Piece

namespace Template

def fill (p : Packages) (t : Template) : List Char := t.flatMap (Piece.fill p)

def strings (t : Template) : List String := t.filterMap Piece.string?

/-- Templates behind each other with a text between them. -/
def separated (sep : List Char) : List Template → Template
  | [] => []
  | t :: r => t ++ r.flatMap (.text sep :: ·)

variable {p : Packages}

theorem fill_append (s t : Template) : fill p (s ++ t) = fill p s ++ fill p t := List.flatMap_append

theorem fill_text (t : List Char) (r : Template) : fill p (.text t :: r) = t ++ fill p r := rfl

theorem fill_flatMap {α : Type} (f : α → Template) (as : List α) :
    fill p (as.flatMap f) = as.flatMap fun a => fill p (f a) := List.flatMap_assoc

theorem fill_flatten (ts : List Template) : fill p ts.flatten = (ts.map (fill p)).flatten := by
  rw [← List.flatMap_id, fill_flatMap, ← List.flatMap_def]
  rfl

theorem fill_separated (sep : List Char) (ts : List Template) :
    fill p (separated sep ts) = sep.intercalate (ts.map (fill p)) := by
  cases ts with
  | nil => rfl
  | cons t r =>
    rw [separated, fill_append, fill_flatMap, List.map_cons, intercalate_cons, List.flatMap_map]
    rfl

/-- **The literals of a filled template are its own.** -/
theorem literals_fill {t : Template} (ht : ∀ a ∈ t, a.Unquoted)
    (hp : ∀ package, '"' ∉ (Code.packageName p package).toList) :
    StringLiteral.literals (fill p t) = t.strings.map StringLiteral.write := by
  induction t with
  | nil => rfl
  | cons a r ih =>
    have hr := ih fun b hb => ht b (List.mem_cons_of_mem a hb)
    have ha := ht a List.mem_cons_self
    have hfill : fill p (a :: r) = a.fill p ++ fill p r := rfl
    rw [hfill]
    cases a with
    | text t => rw [Piece.fill, StringLiteral.literals_append ha, hr]; rfl
    | quoted s => rw [Piece.fill, StringLiteral.literals_write, hr]; rfl
    | slot package name =>
      have hname : '"' ∉ Code.qualified p package name := by
        rw [Code.qualified]
        split
        · exact ha
        · rw [List.mem_append, List.mem_cons]
          rintro (h | h | h)
          · exact hp package h
          · exact absurd h (by decide)
          · exact ha h
      rw [Piece.fill, StringLiteral.literals_append hname, hr]
      rfl

end Template

/-! ### The template of code -/

namespace Code

open QueryScribe.Template

/-- What stands between brackets behind a number of tabs, from the arguments with their tabs. -/
def pieceArguments (n : Nat) (items lines : List Template) : Template :=
  separated [',', ' '] items
    ++ match lines with
      | [] => []
      | _ => (if items.isEmpty then [] else [.text [',']])
        ++ lines.flatMap (fun l => .text ('\n' :: tabs (n + 1)) :: (l ++ [.text [',']]))
        ++ [.text ('\n' :: tabs n)]

mutual
/-- The template of a piece of code that begins behind a number of tabs. -/
def pieces (n : Nat) : Code → Template
  | .word text => [.text text.toList]
  | .quoted s => [.quoted s]
  | .name package ident => [.slot package ident]
  | .group bracket items lines =>
    .text [bracket.opener] :: pieceArguments n (piecesAll n items) (piecesAll (n + 1) lines)
      ++ [.text [bracket.closer]]
  | .seq parts => (piecesAll n parts).flatten
def piecesAll (n : Nat) : List Code → List Template
  | [] => []
  | c :: r => pieces n c :: piecesAll n r
end

theorem fill_pieceArguments (p : Packages) (n : Nat) (items lines : List Template) :
    fill p (pieceArguments n items lines)
      = laidArguments n (items.map (fill p)) (lines.map (fill p)) := by
  rw [pieceArguments.eq_def, laidArguments.eq_def, fill_append, fill_separated]
  congr 1
  cases lines with
  | nil => rfl
  | cons l r =>
    have hcomma : fill p (if items.isEmpty then [] else [.text [',']])
        = if (items.map (fill p)).isEmpty then [] else [','] := by
      cases items <;> rfl
    have hline (l : Template) : fill p (.text ('\n' :: tabs (n + 1)) :: (l ++ [.text [',']]))
        = '\n' :: (tabs (n + 1) ++ (fill p l ++ [','])) := by
      rw [fill_text, fill_append]
      rfl
    have hend : fill p [.text ('\n' :: tabs n)] = '\n' :: tabs n := List.append_nil _
    rw [List.map_cons]
    dsimp only
    rw [fill_append, fill_append, hcomma, fill_flatMap, hend, ← List.map_cons, List.flatMap_map]
    simp only [hline]

mutual
/-- **Code is its template with the packages filled in.** -/
theorem fill_pieces (p : Packages) (n : Nat) : ∀ c, fill p (pieces n c) = laid p n c
  | .word text => by rw [pieces, laid]; exact List.append_nil _
  | .quoted s => by rw [pieces, laid]; exact List.append_nil _
  | .name package ident => by rw [pieces, laid]; exact List.append_nil _
  | .group bracket items lines => by
    rw [pieces, laid, fill_append, fill_text, fill_pieceArguments, map_fill_piecesAll p n items,
      map_fill_piecesAll p (n + 1) lines]
    rfl
  | .seq parts => by rw [pieces, laid, fill_flatten, map_fill_piecesAll p n parts]
theorem map_fill_piecesAll (p : Packages) (n : Nat) :
    ∀ cs, (piecesAll n cs).map (fill p) = laidAll p n cs
  | [] => by rw [piecesAll, laidAll, List.map_nil]
  | c :: r => by
    rw [piecesAll, laidAll, List.map_cons, fill_pieces p n c, map_fill_piecesAll p n r]
end

theorem piecesAll_eq_map (n : Nat) (cs : List Code) : piecesAll n cs = cs.map (pieces n) := by
  induction cs with
  | nil => simp [piecesAll]
  | cons c r ih => simp [piecesAll, ih]

theorem quote_notMem_of_tame {t : List Char} (h : isTameText t = true) : '"' ∉ t := by
  intro hq
  exact absurd (List.all_eq_true.1 h _ hq) (by decide)

theorem unquoted_separated {sep : List Char} (hsep : '"' ∉ sep) {ts : List Template}
    (h : ∀ t ∈ ts, ∀ a ∈ t, a.Unquoted) : ∀ a ∈ separated sep ts, a.Unquoted := by
  cases ts with
  | nil => exact fun a ha => absurd ha List.not_mem_nil
  | cons t r =>
    intro a ha
    rcases List.mem_append.1 ha with ha | ha
    · exact h t List.mem_cons_self a ha
    · obtain ⟨u, hu, ha⟩ := List.mem_flatMap.1 ha
      rcases List.mem_cons.1 ha with rfl | ha
      · exact hsep
      · exact h u (List.mem_cons_of_mem t hu) a ha

theorem unquoted_pieceArguments (n : Nat) {items lines : List Template}
    (hi : ∀ t ∈ items, ∀ a ∈ t, a.Unquoted) (hl : ∀ t ∈ lines, ∀ a ∈ t, a.Unquoted) :
    ∀ a ∈ pieceArguments n items lines, a.Unquoted := by
  have hbreak (m : Nat) : '"' ∉ '\n' :: tabs m := by
    intro h
    rcases List.mem_cons.1 h with h | h
    · exact absurd h (by decide)
    · exact absurd (List.eq_of_mem_replicate h) (by decide)
  have hcomma : '"' ∉ [','] := by decide
  intro a ha
  rw [pieceArguments.eq_def] at ha
  rcases List.mem_append.1 ha with ha | ha
  · exact unquoted_separated (by decide) hi a ha
  · cases lines with
    | nil => exact absurd ha List.not_mem_nil
    | cons l r =>
      simp only [List.mem_append, List.mem_flatMap, List.mem_cons, List.not_mem_nil, or_false] at ha
      rcases ha with (ha | ⟨t, ht, rfl | ha | rfl⟩) | rfl
      · split at ha
        · exact absurd ha List.not_mem_nil
        · rw [List.mem_singleton.1 ha]
          exact hcomma
      · exact hbreak _
      · exact hl t (List.mem_cons.2 ht) a ha
      · exact hcomma
      · exact hbreak _

/-- Tame code has no quotes outside its literals. -/
theorem unquoted_pieces {c : Code} (h : Tame c) (n : Nat) : ∀ a ∈ pieces n c, a.Unquoted := by
  have all {cs : List Code} {n : Nat} (hs : ∀ c ∈ cs, ∀ n, ∀ a ∈ pieces n c, a.Unquoted) :
      ∀ t ∈ piecesAll n cs, ∀ a ∈ t, a.Unquoted := by
    intro t ht
    rw [piecesAll_eq_map, List.mem_map] at ht
    obtain ⟨c, hc, rfl⟩ := ht
    exact hs c hc n
  have bracket (c : Char) (hc : c ≠ '"') : '"' ∉ [c] := by
    rw [List.mem_singleton]
    exact Ne.symm hc
  induction h generalizing n with
  | word h =>
    intro a ha
    rw [pieces, List.mem_singleton] at ha
    rw [ha]
    exact quote_notMem_of_tame h
  | quoted s =>
    intro a ha
    rw [pieces, List.mem_singleton] at ha
    rw [ha]
    exact trivial
  | name h =>
    intro a ha
    rw [pieces, List.mem_singleton] at ha
    rw [ha]
    exact quote_notMem_of_tame h
  | @group b items lines _ _ ihi ihl =>
    intro a ha
    rw [pieces, List.mem_append, List.mem_cons, List.mem_singleton] at ha
    rcases ha with (rfl | ha) | rfl
    · exact bracket _ (by cases b <;> decide)
    · exact unquoted_pieceArguments n (all ihi) (all ihl) a ha
    · exact bracket _ (by cases b <;> decide)
  | seq _ ih =>
    intro a ha
    rw [pieces, List.mem_flatten] at ha
    obtain ⟨t, ht, ha⟩ := ha
    exact all ih t ht a ha

end Code

end QueryScribe
