import Mathlib.Data.List.Forall2

/-!
# Texts that are told apart

Brackets, commas, semicolons and quotes are the marks of generated code.  `Tell a b R`
says that `a` and `b`, each in front of a mark, can begin the same text only if `R`
holds: what follows the one is then what follows the other.  Texts without marks tell
that they are equal (`tell_unmarked`), texts one behind the other tell what both parts
tell (`Tell.append`), and lists with commas in brackets tell what their elements tell, one
by one (`tell_listed`).
-/

namespace QueryScribe.Text

/-- Brackets, a comma, a semicolon and a quote. -/
def separators : List Char := ['(', '[', '\x7b', ')', ']', '\x7d', ',', ';', '"']

def isMark (c : Char) : Bool := separators.contains c

def Unmarked (t : List Char) : Prop := ∀ c ∈ t, isMark c = false

/-- A text that begins with a mark, or an empty one. -/
def Marked (t : List Char) : Prop := ∀ c ∈ t.head?, isMark c = true

/-- Two texts in front of marks begin the same text only if a statement holds. -/
def Tell (a b : List Char) (R : Prop) : Prop :=
  ∀ r s : List Char, Marked r → Marked s → a ++ r = b ++ s → R ∧ r = s

theorem marked_cons {c : Char} (h : isMark c = true) (r : List Char) : Marked (c :: r) := by
  intro d hd
  obtain rfl := Option.some.inj hd
  exact h

/-- The text up to the first mark. -/
def stem (t : List Char) : List Char := t.takeWhile fun c => !isMark c

theorem stem_append {a r : List Char} (ha : Unmarked a) (hr : Marked r) : stem (a ++ r) = a := by
  have stop : r.takeWhile (fun c => !isMark c) = [] := by
    cases r with
    | nil => rfl
    | cons c r => rw [List.takeWhile_cons_of_neg]; simp [hr c rfl]
  rw [stem, List.takeWhile_append_of_pos fun c hc => by rw [ha c hc]; rfl, stop, List.append_nil]

theorem Unmarked.append {a b : List Char} (ha : Unmarked a) (hb : Unmarked b) :
    Unmarked (a ++ b) := by
  intro c hc
  rcases List.mem_append.1 hc with h | h
  · exact ha c h
  · exact hb c h

/-! ### One text behind the other -/

section Tell

variable {a b c d : List Char} {R S : Prop}

theorem Tell.mono (h : Tell a b R) (hi : R → S) : Tell a b S := by
  intro r s hr hs he
  obtain ⟨hR, hrs⟩ := h r s hr hs he
  exact ⟨hi hR, hrs⟩

theorem tell_unmarked (ha : Unmarked a) (hb : Unmarked b) : Tell a b (a = b) := by
  intro r s hr hs h
  have hab : a = b := by rw [← stem_append ha hr, h, stem_append hb hs]
  subst hab
  exact ⟨rfl, List.append_cancel_left h⟩

theorem tell_refl (a : List Char) : Tell a a True :=
  fun _ _ _ _ h => ⟨trivial, List.append_cancel_left h⟩

theorem Tell.symm (h : Tell a b R) : Tell b a R := by
  intro r s hr hs he
  obtain ⟨hR, hrs⟩ := h s r hs hr he.symm
  exact ⟨hR, hrs.symm⟩

theorem tell_of_ne {m n : Char} (h : m ≠ n) (a b : List Char) : Tell (m :: a) (n :: b) R :=
  fun _ _ _ _ he => absurd (List.cons.inj he).1 h

theorem Tell.behind (a : List Char) (h : Tell c d R) : Tell (a ++ c) (a ++ d) R := by
  intro r s hr hs he
  rw [List.append_assoc, List.append_assoc] at he
  exact h r s hr hs (List.append_cancel_left he)

/-- Two parts tell what each of them tells, if the second begins with a mark. -/
theorem Tell.append (h : Tell a b R) {m n : Char} (hm : isMark m = true) (hn : isMark n = true)
    (k : Tell (m :: c) (n :: d) S) : Tell (a ++ m :: c) (b ++ n :: d) (R ∧ S) := by
  intro r s hr hs he
  rw [List.append_assoc, List.append_assoc] at he
  obtain ⟨hR, he⟩ := h _ _ (marked_cons hm _) (marked_cons hn _) he
  obtain ⟨hS, hrs⟩ := k r s hr hs he
  exact ⟨⟨hR, hS⟩, hrs⟩

theorem Tell.before (h : Tell a b R) {m : Char} (hm : isMark m = true) (t : List Char) :
    Tell (a ++ m :: t) (b ++ m :: t) R :=
  (h.append hm hm (tell_refl _)).mono And.left

end Tell

/-! ### Lists -/

theorem intercalate_cons (sep part : List Char) (parts : List (List Char)) :
    sep.intercalate (part :: parts) = part ++ parts.flatMap (sep ++ ·) := by
  induction parts generalizing part with
  | nil => simp [List.intercalate]
  | cons next parts ih =>
    have hstep : sep.intercalate (part :: next :: parts) = part ++ (sep ++ sep.intercalate
        (next :: parts)) := by
      simp [List.intercalate]
    rw [hstep, ih, List.flatMap_cons, List.append_assoc]

theorem intercalate_concat (sep : List Char) (ts : List (List Char)) (t : List Char) :
    sep.intercalate (ts ++ [t]) = ts.flatMap (· ++ sep) ++ t := by
  induction ts with
  | nil => exact List.intercalate_singleton
  | cons u r ih =>
    rw [List.cons_append, List.intercalate_cons_of_ne_nil (by simp), ih, List.flatMap_cons,
      List.append_assoc, List.append_assoc, List.append_assoc]

section Listed

variable {α : Type} {f : α → List Char} {R : α → α → Prop} {xs ys : List α} {close : Char}

/-- What follows the first text of a list, each text behind a comma. -/
def followers (f : α → List Char) (xs : List α) (close : Char) : List Char :=
  xs.flatMap (fun x => ',' :: ' ' :: f x) ++ [close]

theorem marked_followers (hc : isMark close = true) (xs : List α) :
    ∃ m t, followers f xs close = m :: t ∧ isMark m = true := by
  cases xs with
  | nil => exact ⟨close, [], rfl, hc⟩
  | cons x xs => exact ⟨',', _, rfl, by decide⟩

theorem followers_cons (x : α) :
    followers f (x :: xs) close = [',', ' '] ++ (f x ++ followers f xs close) := by
  simp [followers]

theorem tell_cons (hc : isMark close = true) {x y : α} (first : Tell (f x) (f y) (R x y))
    (rest : Tell (followers f xs close) (followers f ys close) (List.Forall₂ R xs ys)) :
    Tell (f x ++ followers f xs close) (f y ++ followers f ys close)
      (List.Forall₂ R (x :: xs) (y :: ys)) := by
  obtain ⟨m, t, hm, hmark⟩ := marked_followers (f := f) hc xs
  obtain ⟨n, u, hn, hnark⟩ := marked_followers (f := f) hc ys
  rw [hm, hn] at rest ⊢
  exact (first.append hmark hnark rest).mono fun h => .cons h.1 h.2

theorem tell_followers (hc : isMark close = true) (hne : close ≠ ',')
    (each : ∀ x ∈ xs, ∀ y ∈ ys, Tell (f x) (f y) (R x y)) :
    Tell (followers f xs close) (followers f ys close) (List.Forall₂ R xs ys) := by
  induction xs generalizing ys with
  | nil =>
    cases ys with
    | nil => exact (tell_refl _).mono fun _ => .nil
    | cons y ys => exact fun _ _ _ _ h => absurd (List.cons.inj h).1 hne
  | cons x xs ih =>
    cases ys with
    | nil => exact fun _ _ _ _ h => absurd (List.cons.inj h).1.symm hne
    | cons y ys =>
      have rest := ih fun x hx y hy =>
        each x (List.mem_cons_of_mem _ hx) y (List.mem_cons_of_mem _ hy)
      rw [followers_cons, followers_cons]
      exact (tell_cons hc (each x List.mem_cons_self y List.mem_cons_self) rest).behind _

/-- **A list in brackets tells what its elements tell**, if no element begins as the bracket
closes. -/
theorem tell_listed (hc : isMark close = true) (hne : close ≠ ',')
    (each : ∀ x ∈ xs, ∀ y ∈ ys, Tell (f x) (f y) (R x y))
    (begins : ∀ x ∈ xs ++ ys, ∀ r s, Marked r → f x ++ r ≠ close :: s) :
    Tell ([',', ' '].intercalate (xs.map f) ++ [close])
      ([',', ' '].intercalate (ys.map f) ++ [close]) (List.Forall₂ R xs ys) := by
  have listed (z : α) (zs : List α) :
      [',', ' '].intercalate ((z :: zs).map f) ++ [close] = f z ++ followers f zs close := by
    rw [List.map_cons, intercalate_cons, List.flatMap_map, List.append_assoc]
    rfl
  have apart (z : α) (hz : z ∈ xs ++ ys) (zs : List α) (r s : List Char) :
      f z ++ followers f zs close ++ r ≠ [close] ++ s := by
    obtain ⟨m, t, hm, hmark⟩ := marked_followers (f := f) hc zs
    rw [hm, List.append_assoc]
    exact begins z hz _ s (marked_cons hmark _)
  cases xs with
  | nil =>
    cases ys with
    | nil => exact (tell_refl _).mono fun _ => .nil
    | cons y ys =>
      rw [listed]
      exact fun r s _ _ h => absurd h.symm (apart y (by simp) ys s r)
  | cons x xs =>
    cases ys with
    | nil =>
      rw [listed]
      exact fun r s _ _ h => absurd h (apart x (by simp) xs r s)
    | cons y ys =>
      have rest := tell_followers hc hne fun x hx y hy =>
        each x (List.mem_cons_of_mem _ hx) y (List.mem_cons_of_mem _ hy)
      rw [listed, listed]
      exact tell_cons hc (each x List.mem_cons_self y List.mem_cons_self) rest

end Listed

end QueryScribe.Text
