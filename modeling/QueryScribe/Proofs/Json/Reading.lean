import QueryScribe.Proofs.Json.Fold
import QueryScribe.Proofs.Json.Numeral
import QueryScribe.Proofs.Outcome
import QueryScribe.Proofs.Text.Digits

/-!
# Written trees are read back

The machine that reads JSON goes through the text of a tree and ends with what the
assembly makes of the tree.  `Reads` says what it is to read a value wherever one may
stand: the state after it does what the settled state does, though a number
is settled only by the character behind it (`Done`).  Strings and numbers are read by the
machines of their own, and containers by induction over the tree: `reads_spread`.

The gaps between the parts may be any white space, so both writers are covered, by
`readWith_compact` and `readWith_pretty`.
-/

namespace QueryScribe.Json

open QueryScribe.Text QueryScribe.Outcome

/-! ### Strings -/

namespace Partial

/-- A string after some more characters, none of which ends it. -/
def run? (p : Partial) : List Char → Option Partial
  | [] => some p
  | c :: r =>
    match p.extend c with
    | .ok (some q) => run? q r
    | _ => none

theorem run?_cons {p q : Partial} {c : Char} (h : p.extend c = .ok (some q)) (r : List Char) :
    p.run? (c :: r) = q.run? r := by
  rw [run?, h]

theorem run?_append (p : Partial) (a b : List Char) :
    p.run? (a ++ b) = (p.run? a).bind (run? · b) := by
  induction a generalizing p with
  | nil => rfl
  | cons c a ih =>
    rw [List.cons_append, run?, run?]
    cases p.extend c with
    | error e => rfl
    | ok q =>
      cases q with
      | none => rfl
      | some q => exact ih q

theorem utf8Size_digitChar : ∀ d < 16, (Nat.digitChar d).utf8Size = 1 := by decide

/-- One hexadecimal digit of an escape, not the last. -/
theorem extend_digit {d left value : Nat} (hd : d < 16) (hleft : 1 < left) (high : Option Nat)
    (reversed : List Char) :
    (⟨.unit high left (some value), reversed⟩ : Partial).extend (Nat.digitChar d)
      = .ok (some ⟨.unit high (left - 1) (some (16 * value + d)), reversed⟩) := by
  rw [extend]
  simp [utf8Size_digitChar d hd, hexValue?_digitChar d hd, hleft]

theorem extend_lastDigit {d value : Nat} (hd : d < 16) (high : Option Nat)
    (reversed : List Char) :
    (⟨.unit high 1 (some value), reversed⟩ : Partial).extend (Nat.digitChar d)
      = (pushUnit ⟨.unit high 1 (some value), reversed⟩ high (16 * value + d)).map some := by
  rw [extend]
  simp [utf8Size_digitChar d hd, hexValue?_digitChar d hd]

theorem hexFixed_four (n : Nat) :
    hexFixed 4 n = [Nat.digitChar (n / 16 / 16 / 16 % 16), Nat.digitChar (n / 16 / 16 % 16),
      Nat.digitChar (n / 16 % 16), Nat.digitChar (n % 16)] := by
  simp [hexFixed]

theorem run?_unit {n : Nat} (hn : n < 0x20) (reversed : List Char) :
    run? ⟨.plain, reversed⟩ ('\\' :: 'u' :: hexFixed 4 n)
      = some ⟨.plain, Char.ofNat n :: reversed⟩ := by
  have hbackslash : (⟨.plain, reversed⟩ : Partial).extend '\\'
      = .ok (some ⟨.backslash, reversed⟩) := rfl
  have hu : (⟨.backslash, reversed⟩ : Partial).extend 'u'
      = .ok (some ⟨.unit none 4 (some 0), reversed⟩) := rfl
  have hmod (m : Nat) : m % 16 < 16 := Nat.mod_lt _ (by decide)
  have hsum : 16 * (16 * (16 * (16 * 0 + n / 16 / 16 / 16 % 16) + n / 16 / 16 % 16)
      + n / 16 % 16) + n % 16 = n := by omega
  have hpush (p : Partial) : p.pushUnit none n = .ok (p.push (Char.ofNat n)) := by
    rw [pushUnit, if_neg (by omega), if_neg (by omega)]
  rw [run?_cons hbackslash, run?_cons hu, hexFixed_four,
    run?_cons (extend_digit (hmod _) (by decide) _ _),
    run?_cons (extend_digit (hmod _) (by decide) _ _),
    run?_cons (extend_digit (hmod _) (by decide) _ _), run?, extend_lastDigit (hmod _), hsum,
    hpush]
  rfl

/-- The ways to write a character: by a letter, by its number, or as it is. -/
theorem escape_cases (c : Char) :
    (∃ d, d ≠ 'u' ∧ escaped? d = some c ∧ escape c = ['\\', d])
      ∨ (c.toNat < 0x20 ∧ escape c = '\\' :: 'u' :: hexFixed 4 c.toNat)
      ∨ (c ≠ '"' ∧ c ≠ '\\' ∧ ¬ c.toNat < 0x20 ∧ escape c = [c]) := by
  by_cases hletter : c = '"' ∨ c = '\\' ∨ c = '\x08' ∨ c = '\x0c' ∨ c = '\n' ∨ c = '\r' ∨ c = '\t'
  · refine .inl ?_
    rcases hletter with rfl | rfl | rfl | rfl | rfl | rfl | rfl
    · exact ⟨'"', by decide, rfl, rfl⟩
    · exact ⟨'\\', by decide, rfl, rfl⟩
    · exact ⟨'b', by decide, rfl, rfl⟩
    · exact ⟨'f', by decide, rfl, rfl⟩
    · exact ⟨'n', by decide, rfl, rfl⟩
    · exact ⟨'r', by decide, rfl, rfl⟩
    · exact ⟨'t', by decide, rfl, rfl⟩
  · obtain ⟨hquote, hbackslash, hb, hf, hn, hr, ht⟩ := by simpa only [not_or] using hletter
    rw [escape, if_neg hquote, if_neg hbackslash, if_neg hb, if_neg hf, if_neg hn, if_neg hr,
      if_neg ht]
    by_cases hlow : c.toNat < 0x20
    · exact .inr (.inl ⟨hlow, if_pos hlow⟩)
    · exact .inr (.inr ⟨hquote, hbackslash, hlow, if_neg hlow⟩)

/-- **One character of a string**, whichever way it is written. -/
theorem run?_escape (c : Char) (reversed : List Char) :
    run? ⟨.plain, reversed⟩ (escape c) = some ⟨.plain, c :: reversed⟩ := by
  rcases escape_cases c with ⟨d, hd, hescaped, h⟩ | ⟨hlow, h⟩ | ⟨hquote, hbackslash, hlow, h⟩
  · have hopen : (⟨.plain, reversed⟩ : Partial).extend '\\'
        = .ok (some ⟨.backslash, reversed⟩) := rfl
    have hletter : (⟨.backslash, reversed⟩ : Partial).extend d
        = .ok (some ⟨.plain, c :: reversed⟩) := by
      rw [extend]
      simp only [if_neg hd, hescaped]
      rfl
    rw [h, run?_cons hopen, run?_cons hletter, run?]
  · rw [h, run?_unit hlow, Char.ofNat_toNat]
  · have hplain : (⟨.plain, reversed⟩ : Partial).extend c = .ok (some ⟨.plain, c :: reversed⟩) := by
      rw [extend]
      simp only [if_neg hquote, if_neg hbackslash, if_neg hlow]
      rfl
    rw [h, run?_cons hplain, run?]

theorem run?_flatMap_escape (s reversed : List Char) :
    run? ⟨.plain, reversed⟩ (s.flatMap escape) = some ⟨.plain, s.reverse ++ reversed⟩ := by
  induction s generalizing reversed with
  | nil => rfl
  | cons c s ih =>
    rw [List.flatMap_cons, run?_append, run?_escape, Option.bind_some, ih, List.reverse_cons,
      List.append_assoc, List.singleton_append]

end Partial

/-! ### Steps -/

open State

section Machine

variable {α : Type} {asm : Assembly α}

/-- The machine goes from a state to another through a text. -/
def Steps (asm : Assembly α) (s : State α) (text : List Char) (t : State α) : Prop :=
  text.foldlM (State.step asm) s = .ok t

theorem Steps.nil (s : State α) : Steps asm s [] s := rfl

theorem Steps.cons {s m t : State α} {c : Char} {r : List Char} (h : State.step asm s c = .ok m)
    (hr : Steps asm m r t) : Steps asm s (c :: r) t := by
  rw [Steps, List.foldlM_cons, h, ok_bind]
  exact hr

theorem Steps.single {s t : State α} {c : Char} (h : State.step asm s c = .ok t) :
    Steps asm s [c] t := .cons h (.nil t)

theorem Steps.append {s m t : State α} {a b : List Char} (ha : Steps asm s a m)
    (hb : Steps asm m b t) : Steps asm s (a ++ b) t := by
  rw [Steps, List.foldlM_append, ha, ok_bind]
  exact hb

theorem Steps.stay {s : State α} {ws : List Char} (h : ∀ c ∈ ws, State.step asm s c = .ok s) :
    Steps asm s ws s := by
  induction ws with
  | nil => exact .nil s
  | cons c ws ih => exact .cons (h c (by simp)) (ih fun d hd => h d (by simp [hd]))

def Spaces (ws : List Char) : Prop := ∀ c ∈ ws, isSpace c = true

/-- White space in a state that takes it apart from all other characters. -/
theorem Steps.skip {s : State α} {ws : List Char} {next : Char → Except Failure (State α)}
    (h : Spaces ws)
    (hs : ∀ c, State.step asm s c = if isSpace c = true then .ok s else next c) :
    Steps asm s ws s := by
  refine .stay fun c hc => ?_
  rw [hs, if_pos (h c hc)]

/-! ### Values -/

/-- A character that may stand behind a value. -/
def isFollower (c : Char) : Bool := isSpace c || c = ',' || c = ']' || c = '\x7d'

/-- The value is read: what may follow is taken as after the settled value. -/
structure Done (asm : Assembly α) (stack : List (Frame α)) (v : α) (s : State α) : Prop where
  step : ∀ c, isFollower c = true → State.step asm s c = State.step asm (settle v stack) c
  finish : State.finish asm s = State.finish asm (settle v stack)

theorem Done.settle (stack : List (Frame α)) (v : α) : Done asm stack v (settle v stack) :=
  ⟨fun _ _ => rfl, rfl⟩

/-- A text is read as a value where one must stand. -/
def Reads (asm : Assembly α) (stack : List (Frame α)) (text : List Char) (v : α) : Prop :=
  ∃ c r s t, text = c :: r ∧ isSpace c = false ∧ c ≠ ']' ∧ stepValue asm stack c = .ok s
    ∧ Steps asm s r t ∧ Done asm stack v t

/-- Behind a value, white space and then a character that may follow. -/
theorem Done.steps {stack : List (Frame α)} {v : α} {s t : State α} {ws r : List Char} {c : Char}
    (h : Done asm stack v s) (hws : Spaces ws) (hc : isFollower c = true)
    (hr : Steps asm (State.settle v stack) (c :: r) t) : Steps asm s (ws ++ c :: r) t := by
  have hskip : Steps asm (State.settle v stack) ws (State.settle v stack) :=
    .skip hws fun d => stepAfter.eq_def asm _ _ d
  have hsettled : Steps asm (State.settle v stack) (ws ++ c :: r) t := hskip.append hr
  cases ws with
  | nil =>
    rw [List.nil_append, Steps, List.foldlM_cons] at hsettled ⊢
    rw [h.step c hc]
    exact hsettled
  | cons d ws =>
    have hd : isFollower d = true := by
      rw [isFollower, hws d (by simp)]
      rfl
    rw [List.cons_append, Steps, List.foldlM_cons] at hsettled ⊢
    rw [h.step d hd]
    exact hsettled

/-- The character behind a value, with no white space before it. -/
theorem Done.next {stack : List (Frame α)} {v : α} {s t : State α} {r : List Char} {c : Char}
    (h : Done asm stack v s) (hc : isFollower c = true)
    (hr : Steps asm (State.settle v stack) (c :: r) t) : Steps asm s (c :: r) t := by
  have hnone : Spaces [] := fun _ hd => absurd hd List.not_mem_nil
  exact h.steps hnone hc hr

/-! ### Words, numbers and strings -/

theorem steps_word {stack : List (Frame α)} {v : α} (d : Char) (r : List Char) :
    Steps asm ⟨stack, .word (d :: r) v⟩ (d :: r) (settle v stack) := by
  induction r generalizing d with
  | nil => exact .single (by rw [State.step]; simp)
  | cons e r ih => exact .cons (by rw [State.step]; simp) (ih e)

theorem reads_null (stack : List (Frame α)) : Reads asm stack "null".toList asm.null :=
  ⟨'n', ['u', 'l', 'l'], _, _, rfl, rfl, by decide, rfl, steps_word 'u' _, .settle stack _⟩

theorem reads_bool (stack : List (Frame α)) (b : Bool) :
    Reads asm stack (writeBool b) (asm.bool b) := by
  cases b with
  | true =>
    exact ⟨'t', ['r', 'u', 'e'], _, _, rfl, rfl, by decide, rfl, steps_word 'r' _,
      .settle stack _⟩
  | false =>
    exact ⟨'f', ['a', 'l', 's', 'e'], _, _, rfl, rfl, by decide, rfl, steps_word 'a' _,
      .settle stack _⟩

theorem steps_numeral {stack : List (Frame α)} {n m : Numeral} {text : List Char}
    (h : n.run? text = some m) : Steps asm ⟨stack, .numeral n⟩ text ⟨stack, .numeral m⟩ := by
  induction text generalizing n with
  | nil =>
    rw [← Option.some.inj h]
    exact .nil _
  | cons c r ih =>
    rw [Numeral.run?] at h
    split at h
    · rename_i q hq
      exact .cons (by rw [State.step]; simp only [hq]) (ih h)
    · cases h

/-- No follower belongs to a numeral that may end. -/
theorem extend_follower {n : Numeral} (h : n.ended) {c : Char} (hc : isFollower c = true) :
    n.extend c = .ok none := by
  simp only [isFollower, isSpace, Bool.or_eq_true, decide_eq_true_eq] at hc
  rw [Numeral.extend]
  rcases hc with ((((((rfl | rfl) | rfl) | rfl) | rfl) | rfl) | rfl) <;>
    rcases h with h | h | h | h <;> rw [h] <;> rfl

theorem stepValue_numeral (stack : List (Frame α)) {c : Char} {n : Numeral}
    (h : Numeral.start? c = some n) :
    stepValue asm stack c = .ok ⟨stack, .numeral n⟩ ∧ isSpace c = false ∧ c ≠ ']' := by
  have apart {d : Char} (hd : Numeral.start? d = none) : c ≠ d := by
    rintro rfl
    rw [hd] at h
    exact absurd h nofun
  refine ⟨?_, ?_, apart rfl⟩
  · rw [stepValue, if_neg (apart rfl), if_neg (apart rfl), if_neg (apart rfl), if_neg (apart rfl),
      if_neg (apart rfl), if_neg (apart rfl), h]
  · rw [isSpace, decide_eq_false (apart rfl), decide_eq_false (apart rfl),
      decide_eq_false (apart rfl), decide_eq_false (apart rfl)]
    rfl

theorem done_numeral (stack : List (Frame α)) {n : Numeral} {m : JsonNumber} (h : n.ended)
    (hm : n.close = .ok m) : Done asm stack (asm.number m) ⟨stack, .numeral n⟩ := by
  refine ⟨fun c hc => ?_, ?_⟩
  · rw [State.step]
    simp only [extend_follower h hc, hm]
    rfl
  · rw [State.finish]
    simp only [hm]
    rfl

theorem reads_number (stack : List (Frame α)) {m : JsonNumber} (h : InBounds m) :
    Reads asm stack (writeNumber m) (asm.number m) := by
  obtain ⟨n, hread, hended, hclose⟩ := Numeral.read?_writeNumber h
  cases ht : writeNumber m with
  | nil =>
    rw [ht] at hread
    exact absurd hread nofun
  | cons c r =>
    rw [ht, Numeral.read?, Option.bind_eq_some_iff] at hread
    obtain ⟨n₀, hstart, hrun⟩ := hread
    obtain ⟨hstep, hspace, hbracket⟩ := @stepValue_numeral α asm stack _ _ hstart
    exact ⟨c, r, _, _, rfl, hspace, hbracket, hstep, steps_numeral hrun,
      done_numeral stack hended hclose⟩

/-- The characters of a string, whether it is a value or a key. -/
theorem steps_partial {stack : List (Frame α)} {mode : Partial → Mode α} {p q : Partial}
    {text : List Char}
    (hmode : ∀ p q c, p.extend c = .ok (some q) →
      State.step asm ⟨stack, mode p⟩ c = .ok ⟨stack, mode q⟩)
    (h : p.run? text = some q) : Steps asm ⟨stack, mode p⟩ text ⟨stack, mode q⟩ := by
  induction text generalizing p with
  | nil =>
    rw [← Option.some.inj h]
    exact .nil _
  | cons c r ih =>
    rw [Partial.run?] at h
    split at h
    · rename_i m hm
      exact .cons (hmode p m c hm) (ih h)
    · exact absurd h nofun

theorem run?_string (s : String) :
    Partial.start.run? (s.toList.flatMap escape) = some ⟨.plain, s.toList.reverse⟩ := by
  have h := Partial.run?_flatMap_escape s.toList []
  rwa [List.append_nil] at h

theorem text_reversed (s : String) : (⟨.plain, s.toList.reverse⟩ : Partial).text = s := by
  rw [Partial.text, List.reverse_reverse, String.ofList_toList]

theorem reads_string (stack : List (Frame α)) (s : String) :
    Reads asm stack (writeString s) (asm.string s) := by
  have hchars : Steps asm ⟨stack, .text .start⟩ (s.toList.flatMap escape)
      ⟨stack, .text ⟨.plain, s.toList.reverse⟩⟩ := by
    refine steps_partial (fun p q c h => ?_) (run?_string s)
    rw [State.step]
    simp only [h]
  have hquote : State.step asm ⟨stack, .text ⟨.plain, s.toList.reverse⟩⟩ '"'
      = .ok (settle (asm.string s) stack) := by
    have h : State.step asm ⟨stack, .text ⟨.plain, s.toList.reverse⟩⟩ '"'
        = .ok (settle (asm.string (⟨.plain, s.toList.reverse⟩ : Partial).text) stack) := rfl
    rw [h, text_reversed]
  exact ⟨'"', _, _, _, rfl, rfl, by decide, rfl, hchars.append (.single hquote),
    .settle stack _⟩

theorem steps_key (stack : List (Frame α)) (done : List (String × α)) (key : String) :
    Steps asm ⟨stack, .key done .start⟩ (key.toList.flatMap escape ++ ['"', ':'])
      ⟨.member done key :: stack, .value⟩ := by
  have hchars : Steps asm ⟨stack, .key done .start⟩ (key.toList.flatMap escape)
      ⟨stack, .key done ⟨.plain, key.toList.reverse⟩⟩ := by
    refine steps_partial (fun p q c h => ?_) (run?_string key)
    rw [State.step]
    simp only [h]
  have hquote : State.step asm ⟨stack, .key done ⟨.plain, key.toList.reverse⟩⟩ '"'
      = .ok ⟨stack, .colon done key⟩ := by
    have h : State.step asm ⟨stack, .key done ⟨.plain, key.toList.reverse⟩⟩ '"'
        = .ok ⟨stack, .colon done (⟨.plain, key.toList.reverse⟩ : Partial).text⟩ := rfl
    rw [h, text_reversed]
  exact hchars.append (.cons hquote (.single rfl))

/-! ### Containers -/

mutual
/-- Whether all integers of a tree are within the bounds of integers. -/
def Bounded : Json → Prop
  | .number n => InBounds n
  | .array items => BoundedItems items
  | .object members => BoundedMembers members
  | _ => True
def BoundedItems : List Json → Prop
  | [] => True
  | j :: r => Bounded j ∧ BoundedItems r
def BoundedMembers : List (String × Json) → Prop
  | [] => True
  | (_, j) :: r => Bounded j ∧ BoundedMembers r
end

theorem stepValue_bracket {stack : List (Frame α)} (h : stack.length < 127) :
    stepValue asm stack '[' = .ok ⟨stack, .firstElement⟩ := by
  have hlow : ¬ 127 ≤ stack.length := by omega
  simp [stepValue, hlow]

theorem stepValue_brace {stack : List (Frame α)} (h : stack.length < 127) :
    stepValue asm stack '\x7b' = .ok ⟨stack, .firstKey⟩ := by
  have hlow : ¬ 127 ≤ stack.length := by omega
  simp [stepValue, hlow]

/-- A value where an element must stand, behind white space. -/
theorem Reads.element {stack : List (Frame α)} {done : List α} {text ws : List Char} {v : α}
    {s : State α} (h : Reads asm (.element done :: stack) text v) (hws : Spaces ws)
    (hs : s = ⟨stack, .firstElement⟩ ∧ done = [] ∨ s = ⟨stack, .nextElement done⟩) :
    ∃ t, Steps asm s (ws ++ text) t ∧ Done asm (.element done :: stack) v t := by
  obtain ⟨c, r, m, t, rfl, hspace, hbracket, hstep, hsteps, hdone⟩ := h
  have hskip : Steps asm s ws s := by
    rcases hs with ⟨rfl, _⟩ | rfl
    · exact .skip hws fun _ => rfl
    · exact .skip hws fun _ => rfl
  have hfirst : State.step asm s c = .ok m := by
    rcases hs with ⟨rfl, rfl⟩ | rfl
    · rw [State.step]
      simp only [hspace, hbracket, if_false, Bool.false_eq_true]
      exact hstep
    · rw [State.step]
      simp only [hspace, hbracket, if_false, Bool.false_eq_true]
      exact hstep
  exact ⟨t, hskip.append (.cons hfirst hsteps), hdone⟩

/-- A key and a value where a member must stand, behind white space. -/
theorem Reads.member {stack : List (Frame α)} {done : List (String × α)} {key : String}
    {text ws space : List Char} {v : α} {s : State α}
    (h : Reads asm (.member done key :: stack) text v) (hws : Spaces ws) (hspace : Spaces space)
    (hs : s = ⟨stack, .firstKey⟩ ∧ done = [] ∨ s = ⟨stack, .nextKey done⟩) :
    ∃ t, Steps asm s (ws ++ (writeString key ++ ':' :: (space ++ text))) t
      ∧ Done asm (.member done key :: stack) v t := by
  obtain ⟨c, r, m, t, rfl, hc, _, hstep, hsteps, hdone⟩ := h
  have hskip : Steps asm s ws s := by
    rcases hs with ⟨rfl, _⟩ | rfl
    · exact .skip hws fun _ => rfl
    · exact .skip hws fun _ => rfl
  have hquote : State.step asm s '"' = .ok ⟨stack, .key done .start⟩ := by
    rcases hs with ⟨rfl, rfl⟩ | rfl <;> rfl
  have hgap : Steps asm ⟨.member done key :: stack, .value⟩ space
      ⟨.member done key :: stack, .value⟩ := .skip hspace fun _ => rfl
  have hfirst : State.step asm ⟨.member done key :: stack, .value⟩ c = .ok m := by
    rw [State.step]
    simp only [hc, if_false, Bool.false_eq_true]
    exact hstep
  have htext : writeString key ++ ':' :: (space ++ c :: r)
      = '"' :: ((key.toList.flatMap escape ++ ['"', ':']) ++ (space ++ c :: r)) := by
    simp [writeString]
  rw [htext]
  exact ⟨t, hskip.append (.cons hquote ((steps_key stack done key).append
    (hgap.append (.cons hfirst hsteps)))), hdone⟩

section Containers

variable {gap : Nat → List Char} {space : List Char}
  (hws : (∀ d, Spaces (gap d)) ∧ Spaces space)
include hws

mutual
/-- **A written tree is read as what the assembly makes of it**, wherever a value may stand. -/
theorem reads_spread (depth : Nat) (stack : List (Frame α)) : ∀ (j : Json) (v : α), Bounded j →
    fold asm j = some v → stack.length + j.depth ≤ 127 →
    Reads asm stack (spread gap space depth j) v
  | .null, v, _, hf, _ => by
    rw [← Option.some.inj hf, spread]
    exact reads_null stack
  | .bool b, v, _, hf, _ => by
    rw [← Option.some.inj hf, spread]
    exact reads_bool stack b
  | .number n, v, hb, hf, _ => by
    rw [← Option.some.inj hf, spread]
    exact reads_number stack hb
  | .string s, v, _, hf, _ => by
    rw [← Option.some.inj hf, spread]
    exact reads_string stack s
  | .array [], v, _, hf, hd => by
    rw [fold, foldItems] at hf
    rw [← Option.some.inj hf, spread, spreadItems, between]
    rw [Json.depth] at hd
    exact ⟨'[', [']'], _, _, rfl, rfl, by decide, stepValue_bracket (by omega), .single rfl,
      .settle stack _⟩
  | .array (j :: r), v, hb, hf, hd => by
    rw [Bounded, BoundedItems] at hb
    rw [Json.depth, depthItems] at hd
    rw [fold, Option.map_eq_some_iff] at hf
    obtain ⟨vs, hvs, rfl⟩ := hf
    obtain ⟨w, hw, ws, hrest, rfl⟩ := foldItems_cons_eq_some.1 hvs
    have hfirst := reads_spread (depth + 1) (.element [] :: stack) j w hb.1 hw
      (by rw [List.length_cons]; omega)
    obtain ⟨t, hsteps, hdone⟩ := hfirst.element (hws.1 (depth + 1)) (.inl ⟨rfl, rfl⟩)
    have hrest := steps_items depth stack r ws [] w t hb.2 hrest (by omega) hdone
    rw [spread, spreadItems, between, ← List.append_assoc]
    exact ⟨'[', _, _, _, rfl, rfl, by decide, stepValue_bracket (by omega), hsteps.append hrest,
      .settle stack _⟩
  | .object [], v, hb, hf, hd => by
    rw [spread, spreadMembers, between]
    rw [Json.depth] at hd
    have hclose : State.step asm ⟨stack, .firstKey⟩ '\x7d' = .ok (settle v stack) := by
      show closeObject asm stack [] = _
      rw [closeObject, List.reverse_nil, show asm.object [] = some v from hf]
    exact ⟨'\x7b', ['\x7d'], _, _, rfl, rfl, by decide, stepValue_brace (by omega),
      .single hclose, .settle stack _⟩
  | .object ((key, j) :: r), v, hb, hf, hd => by
    rw [Bounded, BoundedMembers] at hb
    rw [Json.depth, depthMembers] at hd
    rw [fold, Option.bind_eq_some_iff] at hf
    obtain ⟨vs, hvs, hobject⟩ := hf
    obtain ⟨w, hw, ws, hrest, rfl⟩ := foldMembers_cons_eq_some.1 hvs
    have hfirst := reads_spread (depth + 1) (.member [] key :: stack) j w hb.1 hw
      (by rw [List.length_cons]; omega)
    obtain ⟨t, hsteps, hdone⟩ := hfirst.member (hws.1 (depth + 1)) hws.2 (.inl ⟨rfl, rfl⟩)
    have hrest := steps_members depth stack r ws [] key w v t hb.2 hrest hobject (by omega) hdone
    rw [spread, spreadMembers, between, ← List.append_assoc]
    exact ⟨'\x7b', _, _, _, rfl, rfl, by decide, stepValue_brace (by omega), hsteps.append hrest,
      .settle stack _⟩
theorem steps_items (depth : Nat) (stack : List (Frame α)) : ∀ (items : List Json) (vs : List α)
    (done : List α) (v : α) (s : State α), BoundedItems items → foldItems asm items = some vs →
    stack.length + 1 + depthItems items ≤ 127 → Done asm (.element done :: stack) v s →
    Steps asm s ((spreadItems gap space (depth + 1) items).flatMap ((',' :: gap (depth + 1)) ++ ·)
      ++ (gap depth ++ [']'])) (settle (asm.array (done.reverse ++ v :: vs)) stack)
  | [], vs, done, v, s, _, hf, _, hs => by
    rw [← Option.some.inj hf, spreadItems, List.flatMap_nil, List.nil_append,
      ← List.reverse_cons]
    exact hs.steps (hws.1 depth) rfl (.single rfl)
  | j :: r, vs, done, v, s, hb, hf, hd, hs => by
    rw [BoundedItems] at hb
    rw [depthItems] at hd
    obtain ⟨w, hw, ws, hrest, rfl⟩ := foldItems_cons_eq_some.1 hf
    have hnext := reads_spread (depth + 1) (.element (v :: done) :: stack) j w hb.1 hw
      (by rw [List.length_cons]; omega)
    obtain ⟨t, hsteps, hdone⟩ := hnext.element (hws.1 (depth + 1)) (.inr rfl)
    have hrest := steps_items depth stack r ws (v :: done) w t hb.2 hrest (by omega) hdone
    have hcomma : Steps asm s (',' :: (gap (depth + 1) ++ spread gap space (depth + 1) j)) t :=
      hs.next rfl (.cons rfl hsteps)
    rw [List.reverse_cons, List.append_assoc, List.singleton_append] at hrest
    rw [spreadItems, List.flatMap_cons, List.append_assoc, List.cons_append]
    exact hcomma.append hrest
theorem steps_members (depth : Nat) (stack : List (Frame α)) : ∀ (members : List (String × Json))
    (vs done : List (String × α)) (key : String) (v w : α) (s : State α), BoundedMembers members →
    foldMembers asm members = some vs → asm.object (done.reverse ++ (key, v) :: vs) = some w →
    stack.length + 1 + depthMembers members ≤ 127 → Done asm (.member done key :: stack) v s →
    Steps asm s ((spreadMembers gap space (depth + 1) members).flatMap
      ((',' :: gap (depth + 1)) ++ ·) ++ (gap depth ++ ['\x7d'])) (settle w stack)
  | [], vs, done, key, v, w, s, _, hf, hobject, _, hs => by
    have hclose : State.step asm (settle v (.member done key :: stack)) '\x7d'
        = .ok (settle w stack) := by
      show closeObject asm stack ((key, v) :: done) = _
      rw [← Option.some.inj hf, ← List.reverse_cons] at hobject
      rw [closeObject, hobject]
    rw [spreadMembers, List.flatMap_nil, List.nil_append]
    exact hs.steps (hws.1 depth) rfl (.single hclose)
  | (k, j) :: r, vs, done, key, v, w, s, hb, hf, hobject, hd, hs => by
    rw [BoundedMembers] at hb
    rw [depthMembers] at hd
    obtain ⟨u, hu, us, hus, rfl⟩ := foldMembers_cons_eq_some.1 hf
    have hnext := reads_spread (depth + 1) (.member ((key, v) :: done) k :: stack) j u hb.1 hu
      (by rw [List.length_cons]; omega)
    obtain ⟨t, hsteps, hdone⟩ := hnext.member (hws.1 (depth + 1)) hws.2 (.inr rfl)
    have hobject' : asm.object (((key, v) :: done).reverse ++ (k, u) :: us) = some w := by
      rw [List.reverse_cons, List.append_assoc, List.singleton_append, hobject]
    have hrest := steps_members depth stack r us ((key, v) :: done) k u w t hb.2 hus hobject'
      (by omega) hdone
    have hcomma : Steps asm s (',' :: (gap (depth + 1) ++ (writeString k
        ++ ':' :: (space ++ spread gap space (depth + 1) j)))) t :=
      hs.next rfl (.cons rfl hsteps)
    rw [spreadMembers, List.flatMap_cons, List.append_assoc, List.cons_append]
    exact hcomma.append hrest
end

theorem readWith_spread {j : Json} {v : α} (hb : Bounded j) (hf : fold asm j = some v)
    (hd : j.depth ≤ 127) : readWith asm (spread gap space 0 j) = .ok v := by
  have hreads := reads_spread hws 0 [] j v hb hf (by rw [List.length_nil]; omega)
  obtain ⟨c, r, s, t, htext, hc, _, hstep, hsteps, hdone⟩ := hreads
  have hfirst : State.step asm State.start c = .ok s := by
    rw [State.step, State.start]
    simp only [hc, if_false, Bool.false_eq_true]
    exact hstep
  have hall : (c :: r).foldlM (State.step asm) State.start = .ok t := Steps.cons hfirst hsteps
  rw [readWith, htext, hall]
  show State.finish asm t = _
  rw [hdone.finish]
  rfl

end Containers

/-- **The text on one line is read back.** -/
theorem readWith_compact {j : Json} {v : α} (hb : Bounded j) (hf : fold asm j = some v)
    (hd : j.depth ≤ 127) : readWith asm j.compact = .ok v := by
  rw [compact_eq_spread 0]
  have hnone : Spaces [] := fun _ hc => absurd hc List.not_mem_nil
  exact readWith_spread ⟨fun _ => hnone, hnone⟩ hb hf hd

/-- **The text over several lines is read back.** -/
theorem readWith_pretty {j : Json} {v : α} (hb : Bounded j) (hf : fold asm j = some v)
    (hd : j.depth ≤ 127) : readWith asm j.pretty = .ok v := by
  have hgap (depth : Nat) : Spaces (newline depth) := by
    intro c hc
    rw [newline, List.mem_cons] at hc
    rcases hc with rfl | hc
    · rfl
    · rw [List.eq_of_mem_replicate hc]
      rfl
  rw [pretty, prettyAt_eq_spread]
  have hspace : Spaces [' '] := by
    intro c hc
    rw [List.mem_singleton.1 hc]
    rfl
  exact readWith_spread ⟨hgap, hspace⟩ hb hf hd

end Machine

end QueryScribe.Json
