import QueryScribe.Proofs.Layout.Ranges

/-!
# Blocks of lines

A text that closes its own brackets leaves the layout pass as it found it.  So its layout
does not depend on what stands around it, but for the number of tabs: it is a `Block`,
laid out as a function of that number.  There are two kinds.  A text on one line stays as it
is.  A text that hangs begins with a line that opens some brackets and ends with a line that
closes just these; what stands between the two gets one more tab, however many brackets the
first line opens, since the pass counts the brackets of one line once (`depth_opened`).
`Settled` are the texts of both kinds.  Brackets can be put around them (`Settled.wrap`), they
are blocks (`Settled.block`), and behind a head that begins a chain they stand one tab to
the right (`format_chain`).  What a block is laid out as is ranged, whatever the number of tabs.
-/

namespace QueryScribe.Layout

open QueryScribe.Text QueryScribe.Outcome

/-! ### Texts from one context to the next -/

/-- The pass over a text turns it into another, from one context to the next. -/
def Turns (n : Nat) (ctx : Context) (t out : List Char) (last : Context) : Prop :=
  ∃ texts, Lays n ctx (lines t) texts last ∧ ['\n'].intercalate texts = out

theorem turns_of_line {n : Nat} {ctx last : Context} {a out : List Char} (hn : '\n' ∉ a)
    (h : layLine n ctx a = .ok (out, last)) : Turns n ctx a out last := by
  refine ⟨[out], ?_, List.intercalate_singleton⟩
  rw [lines_of_line hn]
  exact .single h

theorem Turns.join {n : Nat} {ctx mid last : Context} {s t out more : List Char}
    (h : Turns n ctx s out mid) (k : Turns (n + (lines s).length) mid t more last) :
    Turns n ctx (s ++ '\n' :: t) (out ++ '\n' :: more) last := by
  obtain ⟨xs, hx, rfl⟩ := h
  obtain ⟨ys, hy, rfl⟩ := k
  refine ⟨xs ++ ys, by rw [lines_join]; exact hx.append hy, ?_⟩
  exact intercalate_join (hx.ne_nil (lines_ne_nil s)) (hy.ne_nil (lines_ne_nil t))

theorem Turns.cons {n : Nat} {ctx mid last : Context} {a t out more : List Char} (hn : '\n' ∉ a)
    (h : layLine n ctx a = .ok (out, mid)) (k : Turns (n + 1) mid t more last) :
    Turns n ctx (a ++ '\n' :: t) (out ++ '\n' :: more) last :=
  (turns_of_line hn h).join (by rwa [lines_of_line hn])

/-- What the pass turns a text into is its layout, if no bracket is left open. -/
theorem Turns.format_eq {t out : List Char} {chained : Bool}
    (h : Turns 1 .start t out ⟨[], chained⟩) : format t = .ok (trim out) := by
  obtain ⟨texts, hl, rfl⟩ := h
  rw [format_eq_lines, hl.layLines_eq]
  rfl

/-- **The brackets of one line count once.** -/
theorem depth_opened {opened : List Char} (hne : opened ≠ []) {n : Nat} {stack : List Open}
    (h : Older n stack) : depth (opened.map (Open.mk · n) ++ stack) = depth stack + 1 := by
  refine depth_block (by simpa using hne) (fun o ho => ?_) h.head_ne
  obtain ⟨c, _, rfl⟩ := List.mem_map.1 ho
  rfl

theorem indentation_opened {opened : List Char} (hne : opened ≠ []) {n : Nat} {stack : List Open}
    (h : Older n stack) (chained : Bool) :
    indentation chained (opened.map (Open.mk · n) ++ stack) = indentation chained stack + 1 := by
  rw [indentation, depth_opened hne h, indentation, Nat.add_assoc]

/-- A text that closes its brackets: what it becomes depends on the number of tabs alone. -/
structure Block (t : List Char) (out : Nat → List Char) : Prop where
  turns : ∀ (n : Nat) (stack : List Open) (chained : Bool), Older n stack →
    Turns n ⟨stack, chained⟩ t (out (indentation chained stack))
      ⟨stack, chained || (stack.isEmpty && t.getLast? = some '.')⟩
  ranged : ∀ k, Ranged k (out k)

/-- A text of blocks inside brackets. -/
structure Inner (t : List Char) (out : Nat → List Char) : Prop where
  turns : ∀ (n : Nat) (stack : List Open) (chained : Bool), Older n stack → stack ≠ [] →
    Turns n ⟨stack, chained⟩ t (out (indentation chained stack)) ⟨stack, chained⟩
  ranged : ∀ k, Ranged k (out k)

theorem Block.inner {t : List Char} {out : Nat → List Char} (h : Block t out) : Inner t out := by
  refine ⟨fun n stack chained ho hne => ?_, h.ranged⟩
  have := h.turns n stack chained ho
  rwa [List.isEmpty_eq_false_iff.2 hne, Bool.false_and, Bool.or_false] at this

theorem Inner.join {s t : List Char} {out more : Nat → List Char} (hs : Inner s out)
    (ht : Inner t more) : Inner (s ++ '\n' :: t) (fun k => out k ++ '\n' :: more k) where
  turns n stack chained ho hne := (hs.turns n stack chained ho hne).join
    (ht.turns _ stack chained (ho.mono (Nat.le_add_right ..)) hne)
  ranged k := (hs.ranged k).join (ht.ranged k)

/-! ### Settled texts -/

/-- A text on one line, or one whose first line opens the brackets that its last line closes,
with what it becomes behind a number of tabs. -/
inductive Settled : List Char → (Nat → List Char) → Prop
  | line {a : List Char} : Leads a [] → Ends a → Settled a (fun _ => a)
  | hanging {a opened body : List Char} {out : Nat → List Char} : Leads a opened → Ends a →
      opened ≠ [] → Inner body out →
      Settled (a ++ '\n' :: (body ++ '\n' :: closers opened))
        (fun k => a ++ '\n' :: (out (k + 1) ++ '\n' :: (tabs k ++ closers opened)))

theorem Settled.ends {t : List Char} {l : Nat → List Char} (h : Settled t l) (k : Nat) :
    Ends (l k) := by
  cases h with
  | line _ he => exact he
  | @hanging a _ _ out _ _ hne =>
    have := (ends_closers hne).prepend (a ++ '\n' :: (out (k + 1) ++ '\n' :: tabs k))
    simpa [List.append_assoc] using this

theorem Settled.begins {t : List Char} {l : Nat → List Char} (h : Settled t l) (k : Nat) :
    Begins (l k) := by
  cases h with
  | line ha _ => exact ha.begins
  | hanging ha _ _ _ => exact ha.begins.append _

/-- A settled text between brackets that open before it on its first line. -/
theorem Settled.wrap {x opened t : List Char} {l : Nat → List Char} (hx : Leads x opened)
    (hne : opened ≠ []) (h : Settled t l) :
    Settled (x ++ t ++ closers opened) (fun k => x ++ l k ++ closers opened) := by
  cases h with
  | @line a ha _ =>
    exact .line (hx.append ha.line ha.opens).close ((ends_closers hne).prepend _)
  | @hanging a inner body out ha hea _ hbody =>
    have := Settled.hanging (hx.append ha.line ha.opens) (hea.prepend x) (by simp [hne]) hbody
    simpa [closers_append, List.append_assoc] using this

/-- **A settled text is a block**, also with a comma or a point behind it. -/
theorem Settled.block {t e : List Char} {l : Nat → List Char} (h : Settled t l) (he : Ending e) :
    Block (t ++ e) (fun k => tabs k ++ (l k ++ e)) := by
  have plain : Opens e [] := ⟨[], he.passes, fun _ _ => rfl⟩
  cases h with
  | @line a ha hea =>
    have hlead := ha.append he.newline_notMem plain
    exact ⟨fun n stack chained _ => turns_of_line hlead.line
      (layLine_of_leads hlead (hea.ending he) n stack chained),
      fun k => .line hlead (hea.ending he)⟩
  | @hanging a opened body out ha hea hne hbody =>
    refine ⟨fun n stack chained hold => ?_, fun k => ?_⟩
    · -- the first line leaves its brackets open, so that no point on it begins a chain; the lines
      -- between find them as one more tab, and the last line takes them off again
      have hfirst := layLine_of_leads ha hea n stack chained
      have hopen : (opened.map (Open.mk · n) ++ stack).isEmpty = false := by simp [hne]
      rw [hopen, Bool.false_and, Bool.or_false] at hfirst
      have hinner := hbody.turns (n + 1) _ chained (hold.opened opened)
        (List.isEmpty_eq_false_iff.1 hopen)
      rw [indentation_opened hne hold] at hinner
      have hlast := layLine_of_closers hne he n (n + 1 + (lines body).length) stack chained
      have hend := List.getLast?_append_of_ne_nil (a ++ '\n' :: (body ++ ['\n']))
        (List.append_ne_nil_of_left_ne_nil (ends_closers hne).ne_nil e)
      rw [← hend] at hlast
      have hclose := turns_of_line (by simp [newline_notMem_closers, he.newline_notMem]) hlast
      have := Turns.cons ha.line hfirst (hinner.join hclose)
      simpa [List.append_assoc] using this
    · have := Ranged.hanging ha hea hne he (hbody.ranged (k + 1))
      simpa [List.append_assoc] using this

/-- Settled texts inside brackets, each on lines of its own with a comma behind it. -/
theorem inner_listed {α : Type} {f : α → List Char} {g : α → Nat → List Char} {as : List α}
    (hne : as ≠ []) (h : ∀ a ∈ as, Settled (f a) (g a)) :
    Inner (['\n'].intercalate (as.map fun a => f a ++ [',']))
      (fun k => ['\n'].intercalate (as.map fun a => tabs k ++ (g a k ++ [',']))) := by
  induction as with
  | nil => exact absurd rfl hne
  | cons a r ih =>
    have first := ((h a List.mem_cons_self).block (.inr (.inl rfl))).inner
    cases r with
    | nil => simpa only [List.map_singleton, List.intercalate_singleton] using first
    | cons b r =>
      have rest := ih (List.cons_ne_nil b r) fun c hc => h c (List.mem_cons_of_mem a hc)
      simpa only [List.map_cons, List.intercalate_cons_cons, List.append_assoc, List.cons_append,
        List.nil_append] using first.join rest

/-! ### Chains -/

section Chain

variable {α : Type} {f : α → List Char} {g : α → Nat → List Char} {as : List α}

theorem Settled.format_eq {t : List Char} {l : Nat → List Char} (h : Settled t l) :
    format t = .ok (l 0) := by
  have turned := (h.block (.inl rfl)).turns 1 [] false (older_nil 1)
  rw [List.append_nil] at turned
  have hout : tabs (indentation false []) ++ (l 0 ++ []) = l 0 := List.append_nil (l 0)
  have htrim := trim_of_begins (h.begins 0) (h.ends 0)
  rw [← hout] at htrim
  rw [turned.format_eq, ← hout]
  exact congrArg Except.ok htrim

/-- A link of a chain that goes on leaves it as it was. -/
theorem Settled.link {t e : List Char} {l : Nat → List Char} (h : Settled t l) (he : Ending e)
    (n : Nat) : Turns n ⟨[], true⟩ (t ++ e) ('\t' :: (l 1 ++ e)) ⟨[], true⟩ :=
  (h.block he).turns n [] true (older_nil n)

theorem turns_chain (hne : as ≠ []) (h : ∀ a ∈ as, Settled (f a) (g a)) (n : Nat) :
    Turns n ⟨[], true⟩ (['.', '\n'].intercalate (as.map f))
      (['.', '\n'].intercalate (as.map fun a => '\t' :: g a 1)) ⟨[], true⟩ := by
  induction as generalizing n with
  | nil => exact absurd rfl hne
  | cons a r ih =>
    have ha := h a List.mem_cons_self
    cases r with
    | nil =>
      simpa only [List.map_singleton, List.intercalate_singleton, List.append_nil]
        using ha.link (.inl rfl) n
    | cons b r =>
      have first := ha.link (.inr (.inr rfl)) n
      have rest := ih (List.cons_ne_nil b r) fun c hc => h c (List.mem_cons_of_mem a hc)
      simpa only [List.map_cons, List.intercalate_cons_cons, List.append_assoc, List.cons_append,
        List.nil_append] using first.join (rest _)

theorem Ends.append_flatMap {k : α → List Char} (h : ∀ a ∈ as, Ends (k a)) {head : List Char}
    (he : Ends head) : Ends (head ++ as.flatMap k) := by
  induction as generalizing head with
  | nil => rwa [List.flatMap_nil, List.append_nil]
  | cons a r ih =>
    rw [List.flatMap_cons, ← List.append_assoc]
    exact ih (fun b hb => h b (List.mem_cons_of_mem a hb))
      ((h a List.mem_cons_self).prepend head)

theorem intercalate_chain (head : List Char) (g : α → Nat → List Char) (as : List α) :
    ['.', '\n'].intercalate (head :: as.map fun a => '\t' :: g a 1)
      = head ++ as.flatMap fun a => '.' :: '\n' :: '\t' :: g a 1 := by
  rw [intercalate_cons, List.flatMap_map]
  rfl

/-- **The layout of a chain**: its head, and every link on a new line behind one tab. -/
theorem format_chain {head : List Char} (hl : Leads head []) (he : Ends head)
    (h : ∀ a ∈ as, Settled (f a) (g a)) :
    format (['.', '\n'].intercalate (head :: as.map f))
      = .ok (head ++ as.flatMap fun a => '.' :: '\n' :: '\t' :: g a 1) := by
  have turned : ∃ chained, Turns 1 .start (['.', '\n'].intercalate (head :: as.map f))
      (['.', '\n'].intercalate (head :: as.map fun a => '\t' :: g a 1)) ⟨[], chained⟩ := by
    -- the point behind the head begins the chain; a head alone may begin one without links
    have first {e : List Char} (hend : Ending e) : Turns 1 .start (head ++ e) (head ++ e)
        ⟨[], decide ((head ++ e).getLast? = some '.')⟩ :=
      ((Settled.line hl he).block hend).turns 1 [] false (older_nil 1)
    cases as with
    | nil =>
      have hline := first (.inl rfl)
      rw [List.append_nil] at hline
      exact ⟨_, by simpa only [List.map_nil, List.intercalate_singleton] using hline⟩
    | cons a r =>
      have hline := first (.inr (.inr rfl))
      rw [List.getLast?_concat, decide_eq_true rfl] at hline
      have := hline.join (turns_chain (List.cons_ne_nil a r) h _)
      exact ⟨true, by simpa only [List.map_cons, List.intercalate_cons_cons, List.append_assoc,
        List.cons_append, List.nil_append] using this⟩
  obtain ⟨chained, hturn⟩ := turned
  have hlast : Ends (head ++ as.flatMap fun a => '.' :: '\n' :: '\t' :: g a 1) :=
    he.append_flatMap fun a ha => ((h a ha).ends 1).prepend ['.', '\n', '\t']
  rw [hturn.format_eq, intercalate_chain, trim_of_begins (hl.begins.append _) hlast]

theorem Settled.ranged_link {t e : List Char} {l : Nat → List Char} (h : Settled t l)
    (he : Ending e) : Ranged 1 ('\t' :: (l 1 ++ e)) := (h.block he).ranged 1

theorem ranged_links (hne : as ≠ []) (h : ∀ a ∈ as, Settled (f a) (g a)) :
    Ranged 1 (['.', '\n'].intercalate (as.map fun a => '\t' :: g a 1)) := by
  induction as with
  | nil => exact absurd rfl hne
  | cons a r ih =>
    have ha := h a List.mem_cons_self
    cases r with
    | nil =>
      simpa only [List.map_singleton, List.intercalate_singleton, List.append_nil]
        using ha.ranged_link (.inl rfl)
    | cons b r =>
      have first := ha.ranged_link (.inr (.inr rfl))
      have rest := ih (List.cons_ne_nil b r) fun c hc => h c (List.mem_cons_of_mem a hc)
      simpa only [List.map_cons, List.intercalate_cons_cons, List.append_assoc, List.cons_append,
        List.nil_append] using first.join rest

theorem ranged_chain {head : List Char} (hl : Leads head []) (he : Ends head)
    (h : ∀ a ∈ as, Settled (f a) (g a)) :
    Ranged 0 (head ++ as.flatMap fun a => '.' :: '\n' :: '\t' :: g a 1) := by
  rw [← intercalate_chain]
  have first {e : List Char} (hend : Ending e) : Ranged 0 (head ++ e) :=
    ((Settled.line hl he).block hend).ranged 0
  cases as with
  | nil =>
    simpa only [List.map_nil, List.intercalate_singleton, List.append_nil] using first (.inl rfl)
  | cons a r =>
    have := (first (.inr (.inr rfl))).join (ranged_links (List.cons_ne_nil a r) h).deeper
    simpa only [List.map_cons, List.intercalate_cons_cons, List.append_assoc,
      List.cons_append, List.nil_append] using this

end Chain

end QueryScribe.Layout
