import QueryScribe.Proofs.Code.Tame
import QueryScribe.Proofs.Text.Separation

/-!
# Calls read back

`readCall?` reads a call from its text alone: the name up to the bracket, the arguments between
the bracket and the one that closes it, cut at the commas outside all other brackets and outside
string literals, and what follows.  Code is solid when it is not empty and has no comma of its
own outside its brackets and literals.  A call of solid arguments is read back with just these
arguments (`readCall?_call`): each of them is passed over as a whole (`Uncut`), since the
brackets of inline code come in pairs and its literals hold their own end.
-/

namespace QueryScribe

open QueryScribe.Text QueryScribe.Layout

/-! ### Cutting -/

/-- What is found between brackets: the text up to the first comma, the texts after the commas, and
what follows the closing bracket. -/
structure Cut where
  first : List Char
  others : List (List Char)
  rest : List Char

namespace Cut

def push (t : List Char) (k : Cut) : Cut := { k with first := t ++ k.first }

def next (k : Cut) : Cut := ⟨[], k.first :: k.others, k.rest⟩

/-- A text without the space in front of it. -/
def unspaced : List Char → List Char
  | ' ' :: r => r
  | t => t

/-- The arguments; there are none between empty brackets. -/
def arguments (k : Cut) : List (List Char) :=
  if k.first.isEmpty && k.others.isEmpty then [] else k.first :: k.others.map unspaced

@[simp] theorem push_push (s t : List Char) (k : Cut) : (k.push t).push s = k.push (s ++ t) := by
  rw [push, push, push, List.append_assoc]

theorem map_push_push (s t : List Char) (o : Option Cut) :
    (o.map (push t)).map (push s) = o.map (push (s ++ t)) := by
  cases o with
  | none => rfl
  | some k => exact congrArg some (push_push s t k)

end Cut

mutual
/-- The text up to the round bracket that closes, cut at the commas that stand in no bracket; the
closing brackets that are awaited before it are given, the innermost first. -/
def cut (awaited : List Char) : List Char → Option Cut
  | [] => none
  | c :: r =>
    if c = '"' then (cutQuoted awaited r).map (Cut.push [c])
    else if isOpener c then (cut (closerFor c :: awaited) r).map (Cut.push [c])
    else if isCloser c then
      if awaited.isEmpty then if c = ')' then some ⟨[], [], r⟩ else none
      else if awaited.head? = some c then (cut awaited.tail r).map (Cut.push [c]) else none
    else if c = ',' && awaited.isEmpty then (cut awaited r).map Cut.next
    else (cut awaited r).map (Cut.push [c])
/-- The same from inside a string literal. -/
def cutQuoted (awaited : List Char) : List Char → Option Cut
  | [] => none
  | c :: r =>
    if c = '\\' then (cutEscaped awaited r).map (Cut.push [c])
    else if c = '"' then (cut awaited r).map (Cut.push [c])
    else (cutQuoted awaited r).map (Cut.push [c])
def cutEscaped (awaited : List Char) : List Char → Option Cut
  | [] => none
  | c :: r => (cutQuoted awaited r).map (Cut.push [c])
end

/-- The call that a text begins with: its name, its arguments, and what follows it. -/
def readCall? (text : List Char) : Option (List Char × List (List Char) × List Char) :=
  match text.dropWhile (· ≠ '(') with
  | [] => none
  | _ :: r => (cut [] r).map fun k => (text.takeWhile (· ≠ '('), k.arguments, k.rest)

example : readCall? "f(g(x, y), \"a, b\").h()".toList
    = some ("f".toList, ["g(x, y)".toList, "\"a, b\"".toList], ".h()".toList) := by decide +kernel

/-! ### Texts that are not cut -/

/-- A text that is passed over as a whole, wherever it stands or only between further brackets. -/
def Uncut (within : Bool) (t : List Char) : Prop :=
  ∀ awaited r, (within = true → awaited ≠ []) →
    cut awaited (t ++ r) = (cut awaited r).map (Cut.push t)

section Uncut

variable {within : Bool}

theorem uncut_nil : Uncut within [] := by
  intro awaited r _
  exact Option.map_id'.symm

theorem Uncut.append {s t : List Char} (hs : Uncut within s) (ht : Uncut within t) :
    Uncut within (s ++ t) := by
  intro awaited r hin
  rw [List.append_assoc, hs awaited _ hin, ht awaited _ hin, Cut.map_push_push]

theorem uncut_flatten {ts : List (List Char)} (h : ∀ t ∈ ts, Uncut within t) :
    Uncut within ts.flatten :=
  flatten_closed uncut_nil Uncut.append h

theorem uncut_intercalate {sep : List Char} {ts : List (List Char)} (hsep : Uncut within sep)
    (h : ∀ t ∈ ts, Uncut within t) : Uncut within (sep.intercalate ts) :=
  intercalate_closed uncut_nil Uncut.append hsep h

/-- A character without a meaning is passed over, and so is a comma between further brackets. -/
theorem cut_cons_of_plain {c : Char} (hc : isPlain c = true) {awaited : List Char}
    (hcomma : c = ',' → awaited ≠ []) (r : List Char) :
    cut awaited (c :: r) = (cut awaited r).map (Cut.push [c]) := by
  simp only [isPlain, marks, List.contains_eq_mem, Bool.not_eq_true', decide_eq_false_iff_not,
    List.mem_cons, List.not_mem_nil, or_false, not_or] at hc
  obtain ⟨h1, h2, h3, h4, h5, h6, h7, h8, h9, h10⟩ := hc
  have hopener : isOpener c = false := by simp [isOpener, h1, h2, h3]
  have hcloser : isCloser c = false := by simp [isCloser, h4, h5, h6]
  have hpart : (c = ',' && awaited.isEmpty) = false := by
    by_cases h : c = ','
    · simp [h, hcomma h]
    · simp [h]
  rw [cut, if_neg h7, hopener, hcloser, hpart]
  rfl

theorem uncut_of_plain {t : List Char} (h : ∀ c ∈ t, isPlain c = true)
    (hcomma : within = false → ',' ∉ t) : Uncut within t := by
  induction t with
  | nil => exact uncut_nil
  | cons c t ih =>
    have hone : Uncut within [c] := by
      intro awaited r hin
      refine cut_cons_of_plain (h c List.mem_cons_self) ?_ r
      rintro rfl
      cases within with
      | true => exact hin rfl
      | false => exact absurd List.mem_cons_self (hcomma rfl)
    refine hone.append (ih (fun d hd => h d (List.mem_cons_of_mem c hd)) fun hw hmem => ?_)
    exact hcomma hw (List.mem_cons_of_mem c hmem)

/-! ### Literals and brackets -/

theorem cutQuoted_append {t : List Char} (h : ∀ c ∈ t, c ≠ '\\' ∧ c ≠ '"')
    (awaited r : List Char) :
    cutQuoted awaited (t ++ r) = (cutQuoted awaited r).map (Cut.push t) := by
  induction t with
  | nil => exact Option.map_id'.symm
  | cons c t ih =>
    obtain ⟨hb, hq⟩ := h c List.mem_cons_self
    rw [List.cons_append, cutQuoted, if_neg hb, if_neg hq,
      ih fun d hd => h d (List.mem_cons_of_mem c hd), Cut.map_push_push]
    rfl

/-- What is written for one character does not end a literal. -/
theorem cutQuoted_writeChar (c : Char) (awaited r : List Char) :
    cutQuoted awaited (StringLiteral.writeChar c ++ r)
      = (cutQuoted awaited r).map (Cut.push (StringLiteral.writeChar c)) := by
  obtain ⟨hc, hself⟩ | ⟨e, t, hc, ht⟩ := writeChar_cases c
  · rw [hc, cutQuoted_append hself]
  · rw [hc, List.cons_append, List.cons_append, cutQuoted, if_pos rfl, cutEscaped,
      cutQuoted_append ht, Cut.map_push_push, Cut.map_push_push]
    rfl

/-- **A string literal is not cut.** -/
theorem uncut_write (s : String) : Uncut within (StringLiteral.write s) := by
  intro awaited r _
  have body (t : List Char) : cutQuoted awaited (t.flatMap StringLiteral.writeChar ++ '"' :: r)
      = (cut awaited r).map (Cut.push (t.flatMap StringLiteral.writeChar ++ ['"'])) := by
    induction t with
    | nil => rw [List.flatMap_nil, List.nil_append, cutQuoted, if_neg (by decide), if_pos rfl]; rfl
    | cons c t ih =>
      rw [List.flatMap_cons, List.append_assoc, cutQuoted_writeChar, ih, Cut.map_push_push,
        List.append_assoc]
  rw [StringLiteral.write, List.cons_append, List.cons_append, List.append_assoc,
    List.singleton_append, cut, if_pos rfl, body, Cut.map_push_push]
  rfl

/-- **A text in brackets is not cut**, whatever commas there are between them. -/
theorem Uncut.enclose {t : List Char} (h : Uncut true t) (b : Bracket) :
    Uncut within (b.opener :: t ++ [b.closer]) := by
  intro awaited r _
  have hopen : cut awaited (b.opener :: (t ++ b.closer :: r))
      = (cut (b.closer :: awaited) (t ++ b.closer :: r)).map (Cut.push [b.opener]) := by
    cases b <;> rw [cut] <;> rfl
  have hclose : cut (b.closer :: awaited) (b.closer :: r)
      = (cut awaited r).map (Cut.push [b.closer]) := by
    cases b <;> rw [cut] <;> rfl
  rw [List.append_assoc, List.cons_append, List.singleton_append, hopen,
    h _ _ fun _ => List.cons_ne_nil _ _, hclose, Cut.map_push_push, Cut.map_push_push]
  simp

end Uncut

/-! ### Code that is not cut -/

namespace Code

/-- A text with something in it and no comma. -/
def isSolidText (t : List Char) : Bool := !t.isEmpty && t.all (· ≠ ',')

mutual
/-- Whether code is not empty and has no comma outside its brackets and literals. -/
def isSolid : Code → Bool
  | .word text => isSolidText text.toList
  | .quoted _ => true
  | .name _ ident => isSolidText ident.toList
  | .group _ _ _ => true
  | .seq parts => !parts.isEmpty && areSolid parts
def areSolid : List Code → Bool
  | [] => true
  | c :: r => isSolid c && areSolid r
end

theorem areSolid_eq_all (cs : List Code) : areSolid cs = cs.all isSolid := by
  induction cs with
  | nil => simp [areSolid]
  | cons c r ih => simp [areSolid, ih]

/-- An argument of a call: inline code that is solid. -/
structure Solid (c : Code) : Prop where
  inline : Inline c
  solid : c.isSolid = true

/-- Package names without commas that mean nothing to the layout pass. -/
structure SolidPackages (p : Packages) : Prop where
  tame : TamePackages p
  comma : ∀ package, ',' ∉ (packageName p package).toList

theorem isSolidText_iff {t : List Char} : isSolidText t = true ↔ t ≠ [] ∧ ',' ∉ t := by
  rw [isSolidText, Bool.and_eq_true, List.all_eq_true]
  constructor
  · rintro ⟨hne, hall⟩
    exact ⟨by simpa using hne, fun h => by simpa using hall _ h⟩
  · rintro ⟨hne, hcomma⟩
    refine ⟨by simpa using hne, fun c hc => ?_⟩
    have : c ≠ ',' := fun e => hcomma (e ▸ hc)
    simpa using this

theorem uncut_of_tame {within : Bool} {t : List Char} (h : isTameText t = true)
    (hcomma : within = false → ',' ∉ t) : Uncut within t := by
  refine uncut_of_plain (fun c hc => ?_) hcomma
  have := List.all_eq_true.1 h c hc
  rw [isTame, Bool.and_eq_true] at this
  exact this.1

section Render

variable {p : Packages} (hp : SolidPackages p)
include hp

theorem comma_notMem_qualified (package : Package) {ident : String} (h : ',' ∉ ident.toList) :
    ',' ∉ qualified p package ident := by
  rw [qualified]
  split
  · exact h
  · rw [List.mem_append, List.mem_cons]
    rintro (hq | hdot | hi)
    · exact hp.comma package hq
    · exact absurd hdot (by decide)
    · exact h hi

omit hp in
theorem uncut_group {within : Bool} {b : Bracket} {items : List Code}
    (h : ∀ c ∈ items, Uncut true (render p c)) : Uncut within (render p (.group b items [])) := by
  have hinside : Uncut true ([',', ' '].intercalate (items.map (render p))) := by
    refine uncut_intercalate (uncut_of_tame (by decide) Bool.noConfusion) fun t ht => ?_
    obtain ⟨c, hc, rfl⟩ := List.mem_map.1 ht
    exact h c hc
  rw [render, renderAll_eq_map, renderAll, arguments, List.append_nil]
  exact hinside.enclose b

omit hp in
theorem uncut_seq {within : Bool} {parts : List Code}
    (h : ∀ c ∈ parts, Uncut within (render p c)) : Uncut within (render p (.seq parts)) := by
  rw [render, renderAll_eq_map]
  refine uncut_flatten fun t ht => ?_
  obtain ⟨c, hc, rfl⟩ := List.mem_map.1 ht
  exact h c hc

/-- Inline code is not cut between further brackets. -/
theorem Inline.uncut {c : Code} (h : Inline c) : Uncut true (render p c) := by
  induction h with
  | word ht => rw [render]; exact uncut_of_tame ht Bool.noConfusion
  | quoted s => rw [render]; exact uncut_write s
  | name hi => rw [render]; exact uncut_of_tame (isTameText_qualified hp.tame _ hi) Bool.noConfusion
  | group _ ih => exact uncut_group ih
  | seq _ ih => exact uncut_seq ih

/-- **Solid code is not cut anywhere.** -/
theorem Solid.uncut {c : Code} (h : Solid c) : Uncut false (render p c) := by
  obtain ⟨h, hs⟩ := h
  induction h with
  | word ht =>
    rw [isSolid, isSolidText_iff] at hs
    rw [render]
    exact uncut_of_tame ht fun _ => hs.2
  | quoted s => rw [render]; exact uncut_write s
  | @name package ident hi =>
    rw [isSolid, isSolidText_iff] at hs
    rw [render]
    exact uncut_of_tame (isTameText_qualified hp.tame _ hi) fun _ =>
      comma_notMem_qualified hp package hs.2
  | group hitems _ => exact uncut_group fun c hc => (hitems c hc).uncut hp
  | seq _ ih =>
    rw [isSolid, areSolid_eq_all, Bool.and_eq_true, List.all_eq_true] at hs
    exact uncut_seq fun c hc => ih c hc (hs.2 c hc)

omit hp in
theorem Solid.render_ne_nil {c : Code} (h : Solid c) : render p c ≠ [] := by
  obtain ⟨h, hs⟩ := h
  induction h with
  | word ht =>
    rw [isSolid, isSolidText_iff] at hs
    rw [render]
    exact hs.1
  | quoted s => rw [render]; exact List.cons_ne_nil _ _
  | name hi =>
    rw [isSolid, isSolidText_iff] at hs
    rw [render, qualified]
    split
    · exact hs.1
    · simp
  | group => rw [render]; exact List.cons_ne_nil _ _
  | @seq parts _ ih =>
    cases parts with
    | nil => exact absurd hs (by simp [isSolid])
    | cons c r =>
      rw [isSolid, areSolid_eq_all, Bool.and_eq_true, List.all_eq_true] at hs
      rw [render, renderAll_eq_map, List.map_cons, List.flatten_cons]
      exact List.append_ne_nil_of_left_ne_nil (ih c List.mem_cons_self
        (hs.2 c List.mem_cons_self)) _

/-! ### Calls -/

/-- Arguments behind a comma are found behind it. -/
theorem cut_followers {args : List Code} (h : ∀ c ∈ args, Solid c) (r : List Char) :
    cut [] ((args.map (render p)).flatMap ([',', ' '] ++ ·) ++ ')' :: r)
      = some ⟨[], (args.map (render p)).map (' ' :: ·), r⟩ := by
  induction args with
  | nil => rfl
  | cons c cs ih =>
    have hstep (t : List Char) :
        cut [] ([',', ' '] ++ t) = ((cut [] t).map (Cut.push [' '])).map Cut.next := by
      have hspace : cut [] (' ' :: t) = (cut [] t).map (Cut.push [' ']) :=
        cut_cons_of_plain (by decide) (by decide) t
      rw [← hspace, List.cons_append, cut]
      rfl
    rw [List.map_cons, List.flatMap_cons, List.append_assoc, List.append_assoc, hstep,
      (h c List.mem_cons_self).uncut hp _ _ Bool.noConfusion,
      ih fun d hd => h d (List.mem_cons_of_mem c hd)]
    simp [Cut.push, Cut.next]

omit hp in
theorem round_notMem_of_tame {t : List Char} (h : isTameText t = true) : '(' ∉ t := by
  intro hmem
  exact absurd (List.all_eq_true.1 h _ hmem) (by decide)

/-- The arguments of a call and what follows it. -/
theorem cut_arguments {args : List Code} (h : ∀ c ∈ args, Solid c) (r : List Char) :
    ∃ k, cut [] ([',', ' '].intercalate (args.map (render p)) ++ ')' :: r) = some k
      ∧ k.arguments = args.map (render p) ∧ k.rest = r := by
  cases args with
  | nil => exact ⟨⟨[], [], r⟩, rfl, rfl, rfl⟩
  | cons c cs =>
    have hc := h c List.mem_cons_self
    have hcut := cut_followers hp (fun d hd => h d (List.mem_cons_of_mem c hd)) r
    refine ⟨⟨render p c, (cs.map (render p)).map (' ' :: ·), r⟩, ?_, ?_, rfl⟩
    · rw [List.map_cons, intercalate_cons, List.append_assoc, hc.uncut hp _ _ Bool.noConfusion, hcut]
      simp [Cut.push]
    · have hne : (render p c).isEmpty = false := by
        simpa using hc.render_ne_nil
      have hspace : ((cs.map (render p)).map (' ' :: ·)).map Cut.unspaced = cs.map (render p) := by
        rw [List.map_map]
        exact List.map_id' _
      rw [Cut.arguments, hne, Bool.false_and, hspace]
      rfl

/-- **A call of solid arguments is read back with its arguments.** -/
theorem readCall?_call {function : String} (hf : isTameText function.toList = true)
    {args : List Code} (h : ∀ c ∈ args, Solid c) (r : List Char) :
    readCall? (render p (call function args) ++ r)
      = some (qualified p .builder function, args.map (render p), r) := by
  have hname : ∀ c ∈ qualified p .builder function, decide (c ≠ '(') = true := by
    intro c hc
    have : c ≠ '(' := fun e =>
      round_notMem_of_tame (isTameText_qualified hp.tame .builder hf) (e ▸ hc)
    simpa using this
  have htext : render p (call function args) ++ r = qualified p .builder function
      ++ '(' :: ([',', ' '].intercalate (args.map (render p)) ++ ')' :: r) := by
    simp [call, render, renderAll, renderAll_eq_map, arguments, Bracket.opener, Bracket.closer]
  obtain ⟨k, hk, hargs, hrest⟩ := cut_arguments hp h r
  rw [htext, readCall?, List.dropWhile_append_of_pos hname, List.takeWhile_append_of_pos hname]
  show (cut [] _).map (fun k => (qualified p .builder function ++ [], k.arguments, k.rest)) = _
  rw [hk, Option.map_some, hargs, hrest, List.append_nil]

end Render

end Code

end QueryScribe
