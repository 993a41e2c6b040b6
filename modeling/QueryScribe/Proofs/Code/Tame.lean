import QueryScribe.Double.Layout
import QueryScribe.Proofs.Code.StringReading
import QueryScribe.Proofs.Layout.Whole

/-!
# Tame code

Code is tame when its words and names hold no bracket, no quote, no slash and no line
break.  Everything else that can disturb the layout is under the control of
`Code.render`: brackets come in pairs around whole texts, strings come as literals, and
line breaks come between arguments.  So `whole_render` says that tame code with tame
package names is a whole text, whatever it nests in what.  Tame code is inline when it puts no
argument on a line of its own; then it is one line (`Inline.flat`).
-/

namespace QueryScribe

open QueryScribe.Text QueryScribe.Layout

namespace Layout

/-- A character that means nothing to the layout pass. -/
def isTame (c : Char) : Bool := isPlain c && c ≠ '\n'

/-- A text whose characters mean nothing to the layout pass. -/
def isTameText (t : List Char) : Bool := t.all isTame

/-- A class of characters is tame when no mark and no line break belongs to it. -/
theorem isTame_of_class {p : Char → Bool} (hp : ('\n' :: marks).all (fun d => !p d) = true)
    {c : Char} (h : p c = true) : isTame c = true := by
  rw [List.all_cons, Bool.and_eq_true] at hp
  have hne : c ≠ '\n' := fun e => by rw [e] at h; rw [h] at hp; exact absurd hp.1 (by decide)
  rw [isTame, isPlain_of_class hp.2 h, Bool.true_and, decide_eq_true hne]

theorem isTameText_of_forall {t : List Char} (h : ∀ c ∈ t, isTame c = true) :
    isTameText t = true := List.all_eq_true.2 h

theorem isTameText_append {s t : List Char} (hs : isTameText s = true) (ht : isTameText t = true) :
    isTameText (s ++ t) = true := by
  rw [isTameText, List.all_append, Bool.and_eq_true]
  exact ⟨hs, ht⟩

theorem flat_of_tame {t : List Char} (ht : isTameText t = true) : Flat t := by
  have h := List.all_eq_true.1 ht
  simp only [isTame, Bool.and_eq_true, decide_eq_true_eq] at h
  exact flat_of_passes (fun hn => (h _ hn).2 rfl) (passes_of_plain fun c hc => (h c hc).1)

theorem whole_of_tame {t : List Char} (ht : isTameText t = true) : Whole t := (flat_of_tame ht).whole

/-- A string literal stands on one line and has no bracket that counts. -/
theorem flat_write (s : String) : Flat (StringLiteral.write s) := by
  refine flat_of_passes (fun h => ?_) (passes_write s)
  exact absurd (StringLiteral.isPrintable_of_mem_write h) (by decide)

/-! ### Numerals -/

/-- A character of a written number. -/
def isNumeral (c : Char) : Bool := c.isAlphanum || c = '-' || c = '+' || c = '.'

theorem isTame_of_numeral {c : Char} (h : isNumeral c = true) : isTame c = true :=
  isTame_of_class (by decide) h

theorem numeral_decimal (n : Nat) : ∀ c ∈ decimal n, isNumeral c = true := by
  intro c hc
  have := isDigit_of_mem_decimal hc
  simp [isNumeral, Char.isAlphanum, this]

theorem numeral_signed (i : Int) : ∀ c ∈ signed i, isNumeral c = true := by
  intro c hc
  rw [signed] at hc
  split at hc
  · rcases List.mem_cons.1 hc with rfl | hc
    · rfl
    · exact numeral_decimal _ c hc
  · exact numeral_decimal _ c hc

theorem numeral_hexFixed (width n : Nat) : ∀ c ∈ hexFixed width n, isNumeral c = true := by
  intro c hc
  have digits : ∀ d < 16, isNumeral (Nat.digitChar d) = true := by decide
  obtain ⟨d, hd, rfl⟩ := exists_of_mem_hexFixed hc
  exact digits d hd

theorem numeral_plain (d : Decimal) : ∀ c ∈ d.plain, isNumeral c = true := by
  intro c hc
  have ds := numeral_decimal d.digits c
  have zeros {n : Nat} (h : c ∈ List.replicate n '0') : isNumeral c = true := by
    rw [List.eq_of_mem_replicate h]; rfl
  rw [Decimal.plain] at hc
  split at hc
  · simp only [List.append_assoc, List.mem_append, List.mem_cons, List.not_mem_nil, or_false] at hc
    rcases hc with h | h | rfl | rfl
    · exact ds h
    · exact zeros h
    · rfl
    · rfl
  · split at hc
    · simp only [List.mem_append, List.mem_cons] at hc
      rcases hc with h | rfl | h
      · exact ds (List.mem_of_mem_take h)
      · rfl
      · exact ds (List.mem_of_mem_drop h)
    · simp only [List.cons_append, List.mem_append, List.mem_cons] at hc
      rcases hc with rfl | rfl | h | h
      · rfl
      · rfl
      · exact zeros h
      · exact ds h

theorem numeral_scientific (plus : Bool) (d : Decimal) :
    ∀ c ∈ d.scientific plus, isNumeral c = true := by
  intro c hc
  have ds := numeral_decimal d.digits c
  rw [Decimal.scientific, List.append_assoc, List.append_assoc, List.mem_append, List.mem_append,
    List.cons_append, List.mem_cons, List.mem_append] at hc
  rcases hc with h | h | rfl | h | h
  · exact ds (List.mem_of_mem_take h)
  · split at h
    · simp at h
    · rcases List.mem_cons.1 h with rfl | h
      · rfl
      · exact ds (List.mem_of_mem_drop h)
  · rfl
  · split at h
    · rw [List.mem_singleton.1 h]; rfl
    · simp at h
  · exact numeral_signed _ c h

theorem numeral_writeFinite (style : FloatStyle) (negative : Bool) (x : Magnitude) :
    ∀ c ∈ Double.writeFinite style negative x, isNumeral c = true := by
  have body : ∀ c ∈ x.write style, isNumeral c = true := by
    rw [Magnitude.write, Decimal.write]
    split
    · exact numeral_plain _
    · exact numeral_scientific _ _
  intro c hc
  rw [Double.writeFinite] at hc
  split at hc
  · rcases List.mem_cons.1 hc with rfl | hc
    · rfl
    · exact body c hc
  · exact body c hc

end Layout

namespace Code

/-- Code whose words and names mean nothing to the layout pass. -/
inductive Tame : Code → Prop
  | word {t : String} : isTameText t.toList = true → Tame (.word t)
  | quoted (s : String) : Tame (.quoted s)
  | name {package : Package} {ident : String} : isTameText ident.toList = true →
      Tame (.name package ident)
  | group {b : Bracket} {items lines : List Code} : (∀ c ∈ items, Tame c) →
      (∀ c ∈ lines, Tame c) → Tame (.group b items lines)
  | seq {parts : List Code} : (∀ c ∈ parts, Tame c) → Tame (.seq parts)

/-- Package names that mean nothing to the layout pass. -/
def TamePackages (p : Packages) : Prop :=
  isTameText p.builder.toList = true ∧ isTameText p.bson.toList = true

theorem isTameText_qualified {p : Packages} (hp : TamePackages p) (package : Package)
    {ident : String} (h : isTameText ident.toList = true) :
    isTameText (qualified p package ident) = true := by
  have hq : isTameText (packageName p package).toList = true := by
    cases package with
    | builder => exact hp.1
    | bson => exact hp.2
  have hdot : isTameText ('.' :: ident.toList) = true := by
    rw [isTameText, List.all_cons]
    exact h
  rw [qualified]
  split
  · exact h
  · exact isTameText_append hq hdot

theorem whole_arguments {items lines : List (List Char)} (hi : ∀ t ∈ items, Whole t)
    (hl : ∀ t ∈ lines, Whole t) : Whole (arguments items lines) := by
  have comma : Whole [','] := whole_of_tame (by decide)
  have ending : Whole [',', '\n'] := comma.append whole_newline
  have side : Whole ([',', ' '].intercalate items) :=
    whole_intercalate (whole_of_tame (by decide)) hi
  have breaking : Whole (if items.isEmpty then ['\n'] else [',', '\n']) := by
    split
    · exact whole_newline
    · exact ending
  refine side.append ?_
  cases lines with
  | nil => exact whole_nil
  | cons l ls =>
    refine breaking.append (whole_flatten fun t ht => ?_)
    obtain ⟨u, hu, rfl⟩ := List.mem_map.1 ht
    exact (hl u hu).append ending

/-- **Tame code is a whole text**, however its groups are nested. -/
theorem whole_render {p : Packages} (hp : TamePackages p) {c : Code} (h : Tame c) :
    Whole (render p c) := by
  have all {cs : List Code} (hs : ∀ c ∈ cs, Whole (render p c)) :
      ∀ t ∈ renderAll p cs, Whole t := by
    intro t ht
    rw [renderAll_eq_map, List.mem_map] at ht
    obtain ⟨c, hc, rfl⟩ := ht
    exact hs c hc
  induction h with
  | word h => rw [render]; exact whole_of_tame h
  | quoted s => rw [render]; exact (flat_write s).whole
  | name h => rw [render]; exact whole_of_tame (isTameText_qualified hp _ h)
  | group _ _ ihi ihl =>
    rw [render, List.cons_append]
    exact (whole_arguments (all ihi) (all ihl)).enclose _
  | seq _ ih => rw [render]; exact whole_flatten (all ih)

/-! ### Inline code -/

/-- Tame code of which no argument stands on a line of its own. -/
inductive Inline : Code → Prop
  | word {t : String} : isTameText t.toList = true → Inline (.word t)
  | quoted (s : String) : Inline (.quoted s)
  | name {package : Package} {ident : String} : isTameText ident.toList = true →
      Inline (.name package ident)
  | group {b : Bracket} {items : List Code} : (∀ c ∈ items, Inline c) → Inline (.group b items [])
  | seq {parts : List Code} : (∀ c ∈ parts, Inline c) → Inline (.seq parts)

theorem Inline.tame {c : Code} (h : Inline c) : Tame c := by
  induction h with
  | word ht => exact .word ht
  | quoted s => exact .quoted s
  | name hi => exact .name hi
  | group _ ih => exact .group ih fun c hc => absurd hc List.not_mem_nil
  | seq _ ih => exact .seq ih

theorem Inline.flat {p : Packages} (hp : TamePackages p) {c : Code} (h : Inline c) :
    Flat (render p c) := by
  have comma : Flat [',', ' '] := flat_of_tame (by decide)
  have all {cs : List Code} (hs : ∀ c ∈ cs, Flat (render p c)) :
      ∀ t ∈ cs.map (render p), Flat t := by
    intro t ht
    obtain ⟨c, hc, rfl⟩ := List.mem_map.1 ht
    exact hs c hc
  induction h with
  | word ht => rw [render]; exact flat_of_tame ht
  | quoted s => rw [render]; exact flat_write s
  | name hi => rw [render]; exact flat_of_tame (isTameText_qualified hp _ hi)
  | @group b items _ ih =>
    rw [render, renderAll_eq_map, renderAll, arguments, List.append_nil, List.cons_append]
    exact (flat_intercalate comma (all ih)).enclose b
  | seq _ ih =>
    rw [render, renderAll_eq_map]
    exact flat_flatten (all ih)

/-! ### How code is put together -/

theorem inline_word_of_numeral {t : List Char} (h : ∀ c ∈ t, isNumeral c = true) :
    Inline (.word (String.ofList t)) :=
  .word <| isTameText_of_forall fun c hc =>
    isTame_of_numeral (h c (by rwa [String.toList_ofList] at hc))

theorem Inline.pair {c d : Code} (hc : Inline c) (hd : Inline d) : ∀ e ∈ [c, d], Inline e := by
  intro e he
  rcases List.mem_cons.1 he with rfl | he
  · exact hc
  · rw [List.mem_singleton.1 he]; exact hd

theorem Inline.single {c : Code} (hc : Inline c) : ∀ e ∈ [c], Inline e := by
  intro e he
  rw [List.mem_singleton.1 he]; exact hc

theorem inline_none : ∀ c ∈ ([] : List Code), Inline c := fun _ h => absurd h List.not_mem_nil

theorem inline_call {function : String} {args : List Code} (hf : isTameText function.toList = true)
    (h : ∀ c ∈ args, Inline c) : Inline (call function args) :=
  .seq (.pair (.name hf) (.group h))

theorem inline_composite {type : String} {items : List Code} (hf : isTameText type.toList = true)
    (h : ∀ c ∈ items, Inline c) : Inline (composite type items) :=
  .seq (.pair (.name hf) (.group h))

theorem inline_convert {type : String} {arg : Code} (hf : isTameText type.toList = true)
    (h : Inline arg) : Inline (convert type arg) :=
  .seq (.pair (.name hf) (.group h.single))

end Code

end QueryScribe
