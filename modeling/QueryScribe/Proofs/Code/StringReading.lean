import Mathlib.Algebra.Group.Nat.Defs
import QueryScribe.Code.StringLiteral
import QueryScribe.Proofs.Text.Digits

/-!
# String literals read back

`StringLiteral.read?` reads a string literal by the rules of the language: an escape of
one letter, a code point in two, four or eight digits, and any other character for
itself, up to the first quote without a backslash.  `read?_write` says that a written
literal is read back in front of every other text.  So it holds its own end, and two
strings never share a literal (`quote_read_back`).  All its characters are printable.
-/

namespace QueryScribe.StringLiteral

open QueryScribe.Text

/-! ### The rules of the language -/

/-- The character that a letter behind a backslash stands for. -/
def unescape? (e : Char) : Option Char :=
  if e = '"' then some '"'
  else if e = '\\' then some '\\'
  else if e = 'a' then some '\x07'
  else if e = 'b' then some '\x08'
  else if e = 'f' then some '\x0c'
  else if e = 'n' then some '\n'
  else if e = 'r' then some '\r'
  else if e = 't' then some '\t'
  else if e = 'v' then some '\x0b'
  else none

/-- The number of digits behind a letter that begins a code point, and what the code point stays
below. -/
def width? (e : Char) : Option (Nat × Nat) :=
  if e = 'x' then some (2, 0x80)
  else if e = 'u' then some (4, 0x10000)
  else if e = 'U' then some (8, 0x110000)
  else none

def readHex? : Nat → List Char → Option (Nat × List Char)
  | 0, s => some (0, s)
  | width + 1, s =>
    match readHex? width s with
    | some (n, c :: r) => (hexValue? c).map fun d => (16 * n + d, r)
    | _ => none

def ofCodePoint? (bound n : Nat) : Option Char :=
  if n < bound ∧ n.isValidChar then some (Char.ofNat n) else none

/-- The character that a backslash and what follows it stand for, and the rest. -/
def readEscape? : List Char → Option (Char × List Char)
  | [] => none
  | e :: r =>
    match width? e with
    | some (width, bound) => do
      let (n, rest) ← readHex? width r
      let c ← ofCodePoint? bound n
      return (c, rest)
    | none => (unescape? e).map (·, r)

def readChar? : List Char → Option (Char × List Char)
  | [] => none
  | c :: r => if c = '\\' then readEscape? r else if c = '\n' then none else some (c, r)

theorem length_of_readHex? {width n : Nat} {s r : List Char}
    (h : readHex? width s = some (n, r)) : r.length ≤ s.length := by
  induction width generalizing n r with
  | zero =>
    obtain ⟨_, rfl⟩ := Prod.mk.inj (Option.some.inj h)
    exact Nat.le_refl _
  | succ width ih =>
    rw [readHex?] at h
    split at h
    · rename_i m c t ht
      obtain ⟨d, _, he⟩ := Option.map_eq_some_iff.1 h
      obtain ⟨_, rfl⟩ := Prod.mk.inj he
      have := ih ht
      rw [List.length_cons] at this
      omega
    · exact absurd h nofun

theorem length_of_readEscape? {s r : List Char} {c : Char} (h : readEscape? s = some (c, r)) :
    r.length < s.length := by
  cases s with
  | nil => exact absurd h nofun
  | cons e s =>
    rw [readEscape?] at h
    rw [List.length_cons]
    split at h
    · obtain ⟨⟨n, rest⟩, hn, h⟩ := Option.bind_eq_some_iff.1 h
      obtain ⟨d, _, h⟩ := Option.bind_eq_some_iff.1 h
      obtain ⟨_, rfl⟩ := Prod.mk.inj (Option.some.inj h)
      have := length_of_readHex? hn
      omega
    · obtain ⟨d, _, h⟩ := Option.map_eq_some_iff.1 h
      obtain ⟨_, rfl⟩ := Prod.mk.inj h
      omega

theorem length_of_readChar? {s r : List Char} {c : Char} (h : readChar? s = some (c, r)) :
    r.length < s.length := by
  cases s with
  | nil => exact absurd h nofun
  | cons d s =>
    rw [readChar?] at h
    rw [List.length_cons]
    split at h
    · have := length_of_readEscape? h
      omega
    · split at h
      · exact absurd h nofun
      · obtain ⟨_, rfl⟩ := Prod.mk.inj (Option.some.inj h)
        omega

def readBody? (s : List Char) : Option (List Char × List Char) :=
  match s with
  | [] => none
  | '"' :: r => some ([], r)
  | s =>
    match hs : readChar? s with
    | none => none
    | some (c, r) =>
      have : r.length < s.length := length_of_readChar? hs
      (readBody? r).map fun (cs, rest) => (c :: cs, rest)
termination_by s.length

def read? : List Char → Option (String × List Char)
  | '"' :: r => (readBody? r).map fun (cs, rest) => (String.ofList cs, rest)
  | _ => none

/-! ### Written characters -/

theorem readHex?_hexFixed (width n : Nat) (r : List Char) :
    readHex? width (hexFixed width n ++ r) = some (n % 16 ^ width, r) := by
  induction width generalizing n r with
  | zero => simp [readHex?, hexFixed, Nat.mod_one]
  | succ width ih =>
    have hvalue : 16 * (n / 16 % 16 ^ width) + n % 16 = n % 16 ^ (width + 1) := by
      rw [Nat.pow_succ, Nat.mul_comm (16 ^ width) 16, Nat.mod_mul]
      omega
    rw [hexFixed, List.append_assoc, readHex?, ih, List.singleton_append]
    dsimp only
    rw [hexValue?_digitChar _ (Nat.mod_lt n (by decide)), Option.map_some, hvalue]

theorem ofCodePoint?_toNat {bound : Nat} {c : Char} (h : c.toNat < bound) :
    ofCodePoint? bound c.toNat = some c := by
  rw [ofCodePoint?, if_pos ⟨h, c.valid⟩, Char.ofNat_toNat]

theorem toNat_lt (c : Char) : c.toNat < 0x110000 := by
  have h := c.valid
  simp only [UInt32.isValidChar, Nat.isValidChar] at h
  show c.val.toNat < 0x110000
  omega

theorem readChar?_codePoint {e c : Char} {width bound : Nat} (he : width? e = some (width, bound))
    (hc : c.toNat < bound) (hw : bound ≤ 16 ^ width) (r : List Char) :
    readChar? ('\\' :: e :: hexFixed width c.toNat ++ r) = some (c, r) := by
  have hmod : c.toNat % 16 ^ width = c.toNat := Nat.mod_eq_of_lt (by omega)
  rw [List.cons_append, List.cons_append, readChar?, if_pos rfl, readEscape?, he]
  dsimp only
  rw [readHex?_hexFixed, hmod]
  show (ofCodePoint? bound c.toNat).bind _ = _
  rw [ofCodePoint?_toNat hc]
  rfl

/-- A letter behind a backslash stands for the character that is written so. -/
theorem unescape?_of_escapeLetter? {c e : Char} (h : escapeLetter? c = some e) :
    width? e = none ∧ unescape? e = some c := by
  unfold escapeLetter? at h
  repeat' split at h
  all_goals first
    | obtain rfl := Option.some.inj h
      subst c
      decide
    | exact absurd h nofun

/-- Every character is read back from what is written for it. -/
theorem readChar?_writeChar (c : Char) (r : List Char) :
    readChar? (writeChar c ++ r) = some (c, r) := by
  rw [writeChar]
  cases he : escapeLetter? c with
  | some e =>
    obtain ⟨hw, hu⟩ := unescape?_of_escapeLetter? he
    dsimp only
    rw [List.cons_append, List.singleton_append, readChar?, if_pos rfl, readEscape?, hw]
    dsimp only
    rw [hu, Option.map_some]
  | none =>
    dsimp only
    by_cases hp : isPrintable c = true
    · have hb : c ≠ '\\' := fun h => by rw [h] at he; exact absurd he (by decide)
      have hn : c ≠ '\n' := fun h => by rw [h] at he; exact absurd he (by decide)
      rw [if_pos hp, List.singleton_append, readChar?, if_neg hb, if_neg hn]
    rw [if_neg hp]
    by_cases hx : c.toNat < 0x80
    · rw [if_pos hx]
      exact readChar?_codePoint rfl hx (by decide) r
    rw [if_neg hx]
    by_cases hu : c.toNat < 0x10000
    · rw [if_pos hu]
      exact readChar?_codePoint rfl hu (by decide) r
    rw [if_neg hu]
    exact readChar?_codePoint rfl (toNat_lt c) (by decide) r

/-- Nothing that is written for a character begins with a quote. -/
theorem exists_cons_writeChar (c : Char) : ∃ d r, writeChar c = d :: r ∧ d ≠ '"' := by
  rw [writeChar]
  cases he : escapeLetter? c with
  | some e => exact ⟨'\\', [e], rfl, by decide⟩
  | none =>
    have hq : c ≠ '"' := fun h => by rw [h] at he; exact absurd he (by decide)
    dsimp only
    split
    · exact ⟨c, [], rfl, hq⟩
    · split
      · exact ⟨_, _, rfl, by decide⟩
      · split
        · exact ⟨_, _, rfl, by decide⟩
        · exact ⟨_, _, rfl, by decide⟩

theorem readBody?_writeChar (c : Char) (r : List Char) :
    readBody? (writeChar c ++ r) = (readBody? r).map fun (cs, rest) => (c :: cs, rest) := by
  obtain ⟨d, u, hd, hq⟩ := exists_cons_writeChar c
  have hc := readChar?_writeChar c r
  rw [hd, List.cons_append] at hc ⊢
  rw [readBody?.eq_def]
  split
  · rename_i he
    exact absurd he nofun
  · rename_i he
    exact absurd (List.cons.inj he).1 hq
  · split
    · rename_i hn
      rw [hc] at hn
      exact absurd hn nofun
    · rename_i hs
      rw [hc] at hs
      obtain ⟨rfl, rfl⟩ := Prod.mk.inj (Option.some.inj hs)
      rfl

/-- **A string is read back from its literal, whatever follows it.** -/
theorem read?_write (s : String) (r : List Char) : read? (write s ++ r) = some (s, r) := by
  have body (cs : List Char) : readBody? (cs.flatMap writeChar ++ '"' :: r) = some (cs, r) := by
    induction cs with
    | nil => rw [List.flatMap_nil, List.nil_append, readBody?]
    | cons c cs ih => rw [List.flatMap_cons, List.append_assoc, readBody?_writeChar, ih]; rfl
  rw [write, List.cons_append, List.cons_append, List.append_assoc, List.singleton_append, read?,
    body, Option.map_some]
  dsimp only
  rw [String.ofList_toList]

/-- Two literals in front of two texts that are the same are those of one string. -/
theorem write_append_inj {s t : String} {r u : List Char} (h : write s ++ r = write t ++ u) :
    s = t ∧ r = u := by
  have hs := read?_write s r
  rw [h, read?_write] at hs
  obtain ⟨rfl, rfl⟩ := Prod.mk.inj (Option.some.inj hs)
  exact ⟨rfl, rfl⟩

/-! ### Printable characters -/

theorem isPrintable_of_escapeLetter? {c e : Char} (h : escapeLetter? c = some e) :
    isPrintable e = true := by
  unfold escapeLetter? at h
  repeat' split at h
  all_goals first
    | obtain rfl := Option.some.inj h
      decide
    | exact absurd h nofun

/-- A code point in digits is printable, with the letter in front of them. -/
theorem isPrintable_of_mem_codePoint {e c : Char} (he : isPrintable e = true) {width n : Nat}
    (h : c ∈ '\\' :: e :: hexFixed width n) : isPrintable c = true := by
  have digits : ∀ d < 16, isPrintable (Nat.digitChar d) = true := by decide
  rcases List.mem_cons.1 h with rfl | h
  · decide
  rcases List.mem_cons.1 h with rfl | h
  · exact he
  · obtain ⟨d, hd, rfl⟩ := exists_of_mem_hexFixed h
    exact digits d hd

theorem isPrintable_of_mem_writeChar {c d : Char} (h : d ∈ writeChar c) :
    isPrintable d = true := by
  rw [writeChar] at h
  split at h
  · rename_i e he
    rcases List.mem_cons.1 h with rfl | h
    · decide
    · rw [List.mem_singleton.1 h]
      exact isPrintable_of_escapeLetter? he
  · split at h
    · rename_i hp
      rwa [List.mem_singleton.1 h]
    · split at h
      · exact isPrintable_of_mem_codePoint (by decide) h
      · split at h
        · exact isPrintable_of_mem_codePoint (by decide) h
        · exact isPrintable_of_mem_codePoint (by decide) h

/-- **A literal is printable**, whatever characters are in its string. -/
theorem isPrintable_of_mem_write {s : String} {c : Char} (h : c ∈ write s) :
    isPrintable c = true := by
  rw [write, List.cons_append] at h
  rcases List.mem_cons.1 h with rfl | h
  · decide
  rcases List.mem_append.1 h with h | h
  · obtain ⟨_, _, h⟩ := List.mem_flatMap.1 h
    exact isPrintable_of_mem_writeChar h
  · rw [List.mem_singleton.1 h]
    decide

/-- A printable character is not a control character, and only one of them is blank. -/
theorem seen_of_isPrintable {c : Char} (h : isPrintable c = true) :
    isControl c = false ∧ (c = ' ' ∨ isBlank c = false) := by
  rw [isPrintable, Bool.or_eq_true, decide_eq_true_eq] at h
  rcases h with rfl | h
  · exact ⟨by decide, .inl rfl⟩
  · simp only [Bool.not_eq_true', Bool.or_eq_false_iff] at h
    exact ⟨h.1.1, .inr h.1.2⟩

/-- **A quoted string is read back whole**, and from the front of any other text.  So two
strings are never quoted alike, and no control character or line break of a string is in its
quotation. -/
theorem quote_read_back :
    (∀ s : String, read? (quote s).toList = some (s, [])) ∧
    (∀ (s : String) (r : List Char), read? ((quote s).toList ++ r) = some (s, r)) ∧
    Function.Injective quote ∧
    (∀ s : String, ∀ c ∈ (quote s).toList,
      isControl c = false ∧ (c = ' ' ∨ isBlank c = false)) := by
  have hquote (s : String) : (quote s).toList = write s := String.toList_ofList
  have hread (s : String) (r : List Char) : read? ((quote s).toList ++ r) = some (s, r) := by
    rw [hquote, read?_write]
  refine ⟨fun s => ?_, hread, fun s t h => ?_, fun s c hc => ?_⟩
  · rw [← List.append_nil (quote s).toList, hread]
  · have hs := hread s []
    rw [h, hread] at hs
    exact (Prod.mk.inj (Option.some.inj hs)).1.symm
  · rw [hquote] at hc
    exact seen_of_isPrintable (isPrintable_of_mem_write hc)

/-- Letters, two digits and four; the last code point of four digits stands for itself. -/
theorem quote_read_back_escapes :
    quote "a\"\\ \n\x7f\u00a0\uffff" = "\"a\\\"\\\\ \\n\\x7f\\u00a0\uffff\"" ∧
    isControl 'x' = false ∧ ('x' = ' ' ∨ isBlank 'x' = false) := by
  have h := quote_read_back.2.2.2 "a\"\\ \n\x7f\u00a0\uffff" 'x'
  exact ⟨by decide, h (by decide)⟩

end QueryScribe.StringLiteral
