import QueryScribe.Decimal128
import QueryScribe.Proofs.Text.Digits

/-!
# Decimals read back

The text of an amount has its digits with a point, and a power of ten where that is
shorter.  Whichever form is written, the reader takes the point out and drops the
zeros in front, and is left with the digits of the coefficient and with the
exponent (`Form`).  Digits and power are within bounds, so that nothing is rounded or
moved, and `read?_write` gives the decimal back.  Only a NaN loses what is not written.
-/

namespace QueryScribe

open QueryScribe.Text

namespace Decimal128

/-- A NaN without its sign and its signalling bit; any other decimal as it is. -/
def quiet : Decimal128 → Decimal128
  | nan _ _ => nan false false
  | d => d

/-! ### Characters -/

theorem toLower_digit {c : Char} (h : c.isDigit = true) : c.toLower = c := by
  rw [Char.isDigit_iff_toNat] at h
  unfold Char.toLower
  split
  · rename_i hc
    have hle : 'A'.toNat ≤ c.toNat := UInt32.le_iff_toNat_le.1 hc.1
    have hnine : '9'.toNat < 'A'.toNat := by decide
    omega
  · rfl

theorem map_toLower_digits {ds : List Char} (h : ∀ c ∈ ds, c.isDigit = true) :
    ds.map Char.toLower = ds := by
  induction ds with
  | nil => rfl
  | cons c ds ih =>
    rw [List.map_cons, toLower_digit (h c (by simp)), ih fun d hd => h d (by simp [hd])]

theorem map_toLower_signed (i : Int) : (signed i).map Char.toLower = signed i := by
  have hdigits : (decimal i.natAbs).map Char.toLower = decimal i.natAbs :=
    map_toLower_digits fun _ h => isDigit_of_mem_decimal h
  rw [signed]
  split
  · rw [List.map_cons, hdigits]
    rfl
  · exact hdigits

theorem digit_ne {c d : Char} (h : c.isDigit = true) (hd : d.isDigit = false) : c ≠ d := by
  rintro rfl
  rw [h] at hd
  exact absurd hd (by decide)

/-! ### Drafts -/

/-- A point with the digits behind it, where there are any. -/
def pointed (fraction : List Char) : List Char :=
  if fraction.isEmpty then [] else '.' :: fraction

/-- A power of ten behind a number, or nothing. -/
def Powered (tail : List Char) (power : Int) : Prop :=
  tail = [] ∧ power = 0 ∨ ∃ rest, tail = 'e' :: rest ∧ readPower? rest = some power

section Draft

variable {whole fraction tail : List Char} {power : Int}
  (hw : ∀ c ∈ whole, c.isDigit = true) (hf : ∀ c ∈ fraction, c.isDigit = true)
include hw hf

theorem split_point :
    (whole ++ pointed fraction).takeWhile (· ≠ '.') = whole
      ∧ ((whole ++ pointed fraction).dropWhile (· ≠ '.')).drop 1 = fraction := by
  have hpoint : ∀ c ∈ whole, (decide (c ≠ '.')) = true := fun c hc =>
    decide_eq_true (digit_ne (hw c hc) (by decide))
  rw [List.takeWhile_append_of_pos hpoint, List.dropWhile_append_of_pos hpoint, pointed]
  cases fraction with
  | nil => simp
  | cons c r => simp

/-- The reader takes the point out of a number, and counts its places. -/
theorem readDraft?_eq (ht : Powered tail power) (hfits : fits128 (power - fraction.length) = true) :
    readDraft? (whole ++ pointed fraction ++ tail)
      = some ⟨whole ++ fraction, power - fraction.length⟩ := by
  have hmark : ∀ c ∈ whole ++ pointed fraction, (decide (c ≠ 'e')) = true := by
    intro c hc
    refine decide_eq_true ?_
    rcases List.mem_append.1 hc with hc | hc
    · exact digit_ne (hw c hc) (by decide)
    · rw [pointed] at hc
      split at hc
      · exact absurd hc List.not_mem_nil
      · rcases List.mem_cons.1 hc with rfl | hc
        · decide
        · exact digit_ne (hf c hc) (by decide)
  have htail : tail.takeWhile (· ≠ 'e') = [] ∧ tail.dropWhile (· ≠ 'e') = tail := by
    rcases ht with ⟨rfl, _⟩ | ⟨rest, rfl, _⟩
    · exact ⟨rfl, rfl⟩
    · simp
  obtain ⟨hwhole, hfraction⟩ := split_point hw hf
  rw [readDraft?, List.takeWhile_append_of_pos hmark, List.dropWhile_append_of_pos hmark, htail.1,
    htail.2, List.append_nil, hwhole, hfraction]
  rcases ht with ⟨rfl, rfl⟩ | ⟨rest, rfl, hrest⟩
  · exact if_pos hfits
  · simp only [hrest, Option.bind_eq_bind, Option.bind_some, hfits, if_true]

end Draft

/-- Zeros in front are dropped, though not the only digit of zero. -/
theorem dropLeading_zeros (count coefficient : Nat) (power : Int) :
    (⟨List.replicate count '0' ++ decimal coefficient, power⟩ : Draft).dropLeading
      = ⟨decimal coefficient, power⟩ := by
  have hzeros : ∀ c ∈ List.replicate count '0', (decide (c = '0')) = true := fun c hc =>
    decide_eq_true (List.eq_of_mem_replicate hc)
  rw [Draft.dropLeading, List.dropWhile_append_of_pos hzeros]
  by_cases h : coefficient = 0
  · rw [h]
    rfl
  · obtain ⟨c, r, hr, hc, _⟩ := exists_decimal h
    rw [hr, List.dropWhile_cons_of_neg (by simpa using hc)]

/-- The digits of an amount, with its exponent, are the amount. -/
theorem amount_of_digits (a : DecimalAmount) :
    (do
      let d ← (⟨decimal a.coefficient, a.exponent⟩ : Draft).shorten?
      let d ← d.raise?
      let d ← d.lower?
      d.amount?) = some a := by
  obtain ⟨hlt, hlow, hhigh⟩ := a.inRange
  have hlength : (decimal a.coefficient).length ≤ 34 :=
    (Nat.length_toDigits_le_iff (by decide) (by decide)).2 hlt
  have hshorten : (⟨decimal a.coefficient, a.exponent⟩ : Draft).shorten?
      = some ⟨decimal a.coefficient, a.exponent⟩ := by
    have hnone : (decimal a.coefficient).length - 34 = 0 := by omega
    rw [Draft.shorten?, Draft.dropZeros?]
    simp [hnone]
  have hraise : (⟨decimal a.coefficient, a.exponent⟩ : Draft).raise?
      = some ⟨decimal a.coefficient, a.exponent⟩ := if_pos hlow
  have hlower : (⟨decimal a.coefficient, a.exponent⟩ : Draft).lower?
      = some ⟨decimal a.coefficient, a.exponent⟩ := if_pos hhigh
  have hamount : (⟨decimal a.coefficient, a.exponent⟩ : Draft).amount? = some a := by
    obtain ⟨c, r, hr, hc⟩ := exists_cons_decimal a.coefficient
    have hread : readNat? (c :: r) = some a.coefficient := hr ▸ readNat?_decimal a.coefficient
    rw [Draft.amount?]
    dsimp only
    rw [hr]
    split
    · rename_i heq
      rw [(List.cons.inj heq).1] at hc
      exact absurd hc (by decide)
    · rw [hread, Option.bind_eq_bind, Option.bind_some]
      exact dif_pos a.inRange
  simp only [hshorten, hraise, hlower, hamount, Option.bind_eq_bind, Option.bind_some]

/-! ### Forms -/

/-- A text with some digits in it, behind some zeros: the point may stand among
them, and its places are made up for by the power. -/
inductive Form (ds : List Char) (exponent : Int) : List Char → Prop
  | intro {whole fraction tail : List Char} {power : Int} {count : Nat} :
      (∀ c ∈ whole, c.isDigit = true) → (∀ c ∈ fraction, c.isDigit = true) →
      Powered tail power → whole ++ fraction = List.replicate count '0' ++ ds →
      power - fraction.length = exponent →
      Form ds exponent (whole ++ pointed fraction ++ tail)

/-- **An amount is read back** in whichever form it is written. -/
theorem Form.readAmount? {a : DecimalAmount} {text : List Char}
    (h : Form (decimal a.coefficient) a.exponent text) :
    Decimal128.readAmount? text = some a := by
  obtain ⟨hw, hf, ht, hdigits, hpower⟩ := h
  rename_i whole fraction tail power count
  have hfits : fits128 (power - fraction.length) = true := by
    obtain ⟨_, hlow, hhigh⟩ := a.inRange
    rw [hpower, fits128]
    simp only [Bool.and_eq_true, decide_eq_true_eq]
    omega
  rw [Decimal128.readAmount?, readDraft?_eq hw hf ht hfits, Option.bind_eq_bind, Option.bind_some,
    hdigits, hpower, dropLeading_zeros]
  exact amount_of_digits a

/-- The mark of a power in lower case, with the power behind it. -/
theorem powered_signed {power : Int} (h : fits128 power = true) :
    Powered ((('E' :: if 0 < power then ['+'] else []) ++ signed power).map Char.toLower)
      power := by
  have hread : ∀ s : List Char, readSigned? s = some power → readPower? s = some power := by
    intro s hs
    rw [readPower?, hs, Option.bind_eq_bind, Option.bind_some, if_pos h]
  refine .inr ⟨(if 0 < power then ['+'] else []) ++ signed power, ?_, ?_⟩
  · rw [List.map_append, map_toLower_signed, List.map_cons, List.cons_append]
    split
    · rfl
    · rfl
  · split
    · exact hread _ (readSigned?_plus (by omega))
    · exact hread _ (readSigned?_signed power)

theorem map_toLower_pointed {whole fraction : List Char} (hw : ∀ c ∈ whole, c.isDigit = true)
    (hf : ∀ c ∈ fraction, c.isDigit = true) :
    (whole ++ pointed fraction).map Char.toLower = whole ++ pointed fraction := by
  rw [List.map_append, map_toLower_digits hw, pointed]
  split
  · rfl
  · rw [List.map_cons, map_toLower_digits hf]
    rfl

section Digits

variable {ds : List Char}

theorem pointed_of_pos {fraction : List Char} (h : 0 < fraction.length) :
    pointed fraction = '.' :: fraction := by
  cases fraction with
  | nil => exact absurd h (Nat.lt_irrefl 0)
  | cons c r => rfl

theorem placePoint_of_lt {places : Nat} (h : places < ds.length) :
    placePoint ds places
      = ds.take (ds.length - places) ++ pointed (ds.drop (ds.length - places)) := by
  by_cases hzero : places = 0
  · subst hzero
    simp [placePoint, pointed]
  · have hpos : 0 < (ds.drop (ds.length - places)).length := by
      rw [List.length_drop]
      omega
    rw [placePoint, if_neg hzero, if_pos h, pointed_of_pos hpos]

theorem placePoint_of_le {places : Nat} (hpos : 0 < ds.length) (h : ds.length ≤ places) :
    placePoint ds places
      = ['0'] ++ pointed (List.replicate (places - ds.length) '0' ++ ds) := by
  have hlong : 0 < (List.replicate (places - ds.length) '0' ++ ds).length := by
    rw [List.length_append]
    omega
  rw [placePoint, if_neg (by omega), if_neg (by omega), pointed_of_pos hlong]
  rfl

variable (hd : ∀ c ∈ ds, c.isDigit = true)
include hd

theorem form_cut (n : Nat) {tail : List Char} {power exponent : Int} (ht : Powered tail power)
    (hpower : power - (ds.length - n : Nat) = exponent) :
    Form ds exponent ((ds.take n ++ pointed (ds.drop n)).map Char.toLower ++ tail) := by
  have hw : ∀ c ∈ ds.take n, c.isDigit = true := fun c h => hd c (List.mem_of_mem_take h)
  have hf : ∀ c ∈ ds.drop n, c.isDigit = true := fun c h => hd c (List.mem_of_mem_drop h)
  have hdigits : ds.take n ++ ds.drop n = List.replicate 0 '0' ++ ds := List.take_append_drop n ds
  rw [map_toLower_pointed hw hf]
  exact .intro hw hf ht hdigits (by rw [List.length_drop, hpower])

/-- Digits behind the point, with the zeros that are missing. -/
theorem form_behind (count : Nat) :
    Form ds (-(count + ds.length : Nat))
      ((['0'] ++ pointed (List.replicate count '0' ++ ds)).map Char.toLower) := by
  have hw : ∀ c ∈ ['0'], c.isDigit = true := by
    intro c hc
    rw [List.mem_singleton.1 hc]
    decide
  have hf : ∀ c ∈ List.replicate count '0' ++ ds, c.isDigit = true := by
    intro c hc
    rcases List.mem_append.1 hc with hc | hc
    · rw [List.eq_of_mem_replicate hc]
      decide
    · exact hd c hc
  have hdigits : ['0'] ++ (List.replicate count '0' ++ ds)
      = List.replicate (count + 1) '0' ++ ds := by
    rw [List.replicate_succ]
    rfl
  have hpower : 0 - ((List.replicate count '0' ++ ds).length : Int)
      = -(count + ds.length : Nat) := by
    rw [List.length_append, List.length_replicate]
    omega
  have hform := Form.intro hw hf (.inl ⟨rfl, rfl⟩) hdigits hpower
  rwa [List.append_nil, ← map_toLower_pointed hw hf] at hform

theorem form_placePoint (hpos : 0 < ds.length) (places : Nat) :
    Form ds (-places) ((placePoint ds places).map Char.toLower) := by
  rcases Nat.lt_or_ge places ds.length with h | h
  · have hplaces : 0 - (ds.length - (ds.length - places) : Nat) = -(places : Int) := by omega
    have hform := form_cut hd (ds.length - places) (.inl ⟨rfl, rfl⟩) hplaces
    rwa [List.append_nil, ← placePoint_of_lt h] at hform
  · have hform := form_behind hd (places - ds.length)
    rwa [Nat.sub_add_cancel h, ← placePoint_of_le hpos h] at hform

end Digits

theorem form_writeAmount (a : DecimalAmount) :
    Form (decimal a.coefficient) a.exponent ((writeAmount a).map Char.toLower) := by
  have hd : ∀ c ∈ decimal a.coefficient, c.isDigit = true := fun _ h => isDigit_of_mem_decimal h
  have hpos : 0 < (decimal a.coefficient).length := Nat.length_toDigits_pos
  have hlength : (decimal a.coefficient).length ≤ 34 :=
    (Nat.length_toDigits_le_iff (by decide) (by decide)).2 a.inRange.1
  obtain ⟨-, hlow, hhigh⟩ := a.inRange
  rw [writeAmount]
  generalize decimal a.coefficient = ds at *
  dsimp only
  split
  · rename_i hplain
    have hform := form_placePoint hd hpos (-a.exponent).toNat
    rwa [show -((-a.exponent).toNat : Int) = a.exponent by omega] at hform
  · have hfits : fits128 (a.exponent + ds.length - 1) = true := by
      rw [fits128]
      simp only [Bool.and_eq_true, decide_eq_true_eq]
      omega
    rw [List.append_assoc, List.map_append]
    exact form_cut hd 1 (powered_signed hfits) (by omega)

theorem readAmount?_write (a : DecimalAmount) :
    readAmount? ((writeAmount a).map Char.toLower) = some a :=
  (form_writeAmount a).readAmount?

/-! ### Texts -/

theorem exists_cons_writeAmount (a : DecimalAmount) :
    ∃ c r, writeAmount a = c :: r ∧ c.isDigit = true := by
  obtain ⟨c, r, hr, hc⟩ := exists_cons_decimal a.coefficient
  rw [writeAmount, hr]
  dsimp only
  split
  · rw [placePoint]
    split
    · exact ⟨c, r, rfl, hc⟩
    · split
      · rename_i hplaces hlt
        obtain ⟨n, hn⟩ : ∃ n, (c :: r).length - (-a.exponent).toNat = n + 1 :=
          ⟨(c :: r).length - (-a.exponent).toNat - 1, by omega⟩
        rw [hn]
        exact ⟨c, _, rfl, hc⟩
      · exact ⟨'0', _, rfl, by decide⟩
  · exact ⟨c, _, rfl, hc⟩

/-- **A decimal is read back**, though of a NaN only that it is one. -/
theorem read?_write (d : Decimal128) : read? d.write = some d.quiet := by
  cases d with
  | infinite negative => cases negative <;> rfl
  | nan negative signalling => rfl
  | finite negative a =>
    obtain ⟨c, r, hr, hc⟩ := exists_cons_writeAmount a
    have hsign : spanSign (write (finite negative a)) = (negative, writeAmount a) := by
      cases negative
      · rw [write, if_neg (by decide), hr, spanSign_digit hc]
      · rfl
    -- no name begins with a digit
    have hname : ∀ s : List Char, s.head?.any Char.isDigit = false →
        (writeAmount a).map Char.toLower ≠ s := by
      rintro s hs rfl
      rw [hr, List.map_cons, toLower_digit hc, List.head?_cons, Option.any_some, hc] at hs
      exact absurd hs (by decide)
    rw [read?, hsign]
    dsimp only
    rw [if_neg (hname _ (by decide)), if_neg (hname _ (by decide)),
      if_neg (not_or.2 ⟨hname _ (by decide), hname _ (by decide)⟩), readAmount?_write]
    rfl

@[simp] theorem write_quiet (d : Decimal128) : d.quiet.write = d.write := by
  cases d <;> rfl

@[simp] theorem quiet_quiet (d : Decimal128) : d.quiet.quiet = d.quiet := by
  cases d <;> rfl

end Decimal128

end QueryScribe
