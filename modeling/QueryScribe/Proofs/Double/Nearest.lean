import QueryScribe.Double.Shortest

/-!
# Reading a decimal as the nearest magnitude

Reading a decimal depends on its value alone.  `nearest?_scale` says that a fraction
may be extended, and `ofDecimal?_zeros` that zeros at the end of the digits may be
traded for a smaller power of ten.  A magnitude that is written out digit for digit
reads back, by `exact_readsAs`, and so do the shortest digits: `shortest_readsAs`.
-/

namespace QueryScribe.Magnitude

/-! ### Fractions -/

theorem roundHalfEven_scale (num den : Nat) {k : Nat} (hk : 0 < k) :
    roundHalfEven (num * k) (den * k) = roundHalfEven num den := by
  have hlow : 2 * (num % den * k) < den * k ↔ 2 * (num % den) < den := by
    rw [← Nat.mul_assoc]
    exact Nat.mul_lt_mul_right hk
  have hhigh : den * k < 2 * (num % den * k) ↔ den < 2 * (num % den) := by
    rw [← Nat.mul_assoc]
    exact Nat.mul_lt_mul_right hk
  simp only [roundHalfEven, Nat.mul_div_mul_right _ _ hk, Nat.mul_mod_mul_right, hlow, hhigh]

theorem nearest?_scale (num den : Nat) {k : Nat} (hk : 0 < k) :
    nearest? (num * k) (den * k) = nearest? num den := by
  have hnum : num * k * unit = num * unit * k := Nat.mul_right_comm ..
  have hden (m : Nat) : den * k * m = den * m * k := Nat.mul_right_comm ..
  simp only [nearest?, hnum, hden, Nat.mul_div_mul_right _ _ hk, roundHalfEven_scale _ _ hk]

/-! ### Zeros at the end -/

theorem ten_pow_succ (n : Nat) : Nat.pow 10 (n + 1) = Nat.pow 10 n * 10 := rfl

theorem length_toDigits_ten_mul {n : Nat} (h : n ≠ 0) :
    (Nat.toDigits 10 (n * 10)).length = (Nat.toDigits 10 n).length + 1 := by
  have happend := Nat.toDigits_append_toDigits (b := 10) (d := 0) (by decide)
    (Nat.pos_of_ne_zero h) (by decide)
  rw [Nat.add_zero, Nat.mul_comm] at happend
  rw [← happend, List.length_append, Nat.toDigits_zero, List.length_singleton]

theorem ofDecimal?_zero (power : Int) : ofDecimal? 0 power = some zero := if_pos rfl

theorem ofDecimal?_zero_digit (digits : Nat) (power : Int) :
    ofDecimal? (digits * 10) (power - 1) = ofDecimal? digits power := by
  by_cases h : digits = 0
  · simp only [ofDecimal?, h, Nat.zero_mul, if_true]
  · have h10 : digits * 10 ≠ 0 := Nat.mul_ne_zero h (by decide)
    have horder : (((Nat.toDigits 10 (digits * 10)).length : Int) + (power - 1))
        = ((Nat.toDigits 10 digits).length : Int) + power := by
      rw [length_toDigits_ten_mul h]
      omega
    have hvalue : nearest? (digits * 10 * Nat.pow 10 (power - 1).toNat)
          (Nat.pow 10 (-(power - 1)).toNat)
        = nearest? (digits * Nat.pow 10 power.toNat) (Nat.pow 10 (-power).toNat) := by
      by_cases hp : 0 < power
      · have hup : power.toNat = (power - 1).toNat + 1 := by omega
        have hdown : (-(power - 1)).toNat = 0 := by omega
        have hdown' : (-power).toNat = 0 := by omega
        rw [hup, hdown, hdown', ten_pow_succ, Nat.mul_assoc, Nat.mul_comm 10]
      · have hup : power.toNat = 0 := by omega
        have hup' : (power - 1).toNat = 0 := by omega
        have hdown : (-(power - 1)).toNat = (-power).toNat + 1 := by omega
        rw [hup, hup', hdown, ten_pow_succ, Nat.mul_right_comm]
        exact nearest?_scale _ _ (by decide)
    simp only [ofDecimal?, h, h10, if_false, horder, hvalue]

/-- **Zeros at the end of the digits may be traded for a smaller power.** -/
theorem ofDecimal?_zeros (digits count : Nat) (power : Int) :
    ofDecimal? (digits * Nat.pow 10 count) (power - count) = ofDecimal? digits power := by
  induction count with
  | zero =>
    have hone : digits * Nat.pow 10 0 = digits := Nat.mul_one digits
    rw [hone, Int.natCast_zero, Int.sub_zero]
  | succ count ih =>
    have hpower : power - (count + 1 : Nat) = power - count - 1 := by omega
    rw [ten_pow_succ, ← Nat.mul_assoc, hpower, ofDecimal?_zero_digit, ih]

/-! ### Digits that read back -/

theorem length_decimal_le_iff {n k : Nat} (h : 0 < k) :
    (Nat.toDigits 10 n).length ≤ k ↔ n < Nat.pow 10 k :=
  Nat.length_toDigits_le_iff (by decide) h

/-- The number of digits of a product, from bounds on one factor. -/
theorem length_decimal_mul {u v f k l : Nat} (hk : 0 < k) (hlow : Nat.pow 10 k ≤ f)
    (hhigh : v * f < Nat.pow 10 l) (hpos : 0 < u) (hu : u ≤ v) :
    k < (Nat.toDigits 10 (u * f)).length ∧ (Nat.toDigits 10 (u * f)).length ≤ l := by
  have hge : Nat.pow 10 k ≤ u * f := Nat.le_trans hlow (Nat.le_mul_of_pos_left f hpos)
  have hlt : u * f < Nat.pow 10 l := Nat.lt_of_le_of_lt (Nat.mul_le_mul_right f hu) hhigh
  have hmore : k < (Nat.toDigits 10 (u * f)).length :=
    Nat.lt_of_not_le fun hle => Nat.not_lt.2 hge ((length_decimal_le_iff hk).1 hle)
  refine ⟨hmore, (length_decimal_le_iff ?_).2 hlt⟩
  rcases Nat.eq_zero_or_pos l with rfl | hl
  · exact absurd (Nat.lt_of_le_of_lt hge hlt) (Nat.not_lt.2 (Nat.pow_pos (by decide)))
  · exact hl

theorem units_ne_zero {x : Magnitude} (h : x.mantissa ≠ 0) : x.units ≠ 0 :=
  Nat.mul_ne_zero h (Nat.pos_iff_ne_zero.1 (Nat.pow_pos (by decide)))

theorem two_pow_add (m n : Nat) : Nat.pow 2 (m + n) = Nat.pow 2 m * Nat.pow 2 n :=
  Nat.pow_add 2 m n

theorem units_le {x : Magnitude} {m k : Nat} (hm : x.mantissa ≤ m) (hk : x.shift ≤ k) :
    x.units ≤ m * Nat.pow 2 k :=
  Nat.mul_le_mul hm (Nat.pow_le_pow_right (by decide) hk)

/-- The shift of a magnitude is that of its units. -/
theorem log2_units {x : Magnitude} (h : x.mantissa ≠ 0) : x.units.log2 - 52 = x.shift := by
  obtain ⟨hlt, _, hnormal⟩ := x.normal
  have hpos : 0 < Nat.pow 2 x.shift := Nat.pow_pos (by decide)
  rcases hnormal with hge | hzero
  · have hlow : Nat.pow 2 (52 + x.shift) ≤ x.units := by
      rw [two_pow_add]
      exact Nat.mul_le_mul_right _ hge
    have hhigh : x.units < Nat.pow 2 (53 + x.shift) := by
      rw [two_pow_add]
      exact Nat.mul_lt_mul_of_pos_right hlt hpos
    have hle : 52 + x.shift ≤ x.units.log2 := (Nat.le_log2 (units_ne_zero h)).2 hlow
    have hgt : x.units.log2 < 53 + x.shift := (Nat.log2_lt (units_ne_zero h)).2 hhigh
    omega
  · have hunits : x.units < Nat.pow 2 53 := by
      rw [units, hzero]
      exact Nat.lt_of_le_of_lt (Nat.le_of_eq (Nat.mul_one _)) hlt
    have hlog : x.units.log2 < 53 := (Nat.log2_lt (units_ne_zero h)).2 hunits
    omega

theorem roundHalfEven_exact (q : Nat) {den : Nat} (h : 0 < den) :
    roundHalfEven (q * den) den = q := by
  have hmod : q * den % den = 0 := Nat.mul_mod_left ..
  simp only [roundHalfEven, Nat.mul_div_cancel _ h, hmod, Nat.mul_zero, h, if_true]

theorem unit_pos : 0 < unit := by decide +kernel

/-- The nearest magnitude to a magnitude is itself. -/
theorem nearest?_units {x : Magnitude} (h : x.mantissa ≠ 0) : nearest? x.units unit = some x := by
  have hpos : 0 < Nat.pow 2 x.shift := Nat.pow_pos (by decide)
  have hround : roundHalfEven (x.units * unit) (unit * Nat.pow 2 x.shift) = x.mantissa := by
    have hprod : x.units * unit = x.mantissa * (unit * Nat.pow 2 x.shift) := by
      rw [units, Nat.mul_assoc, Nat.mul_comm unit]
    rw [hprod]
    exact roundHalfEven_exact _ (Nat.mul_pos unit_pos hpos)
  have hne : x.mantissa ≠ Nat.pow 2 53 := Nat.ne_of_lt x.normal.1
  simp only [nearest?, Nat.mul_div_cancel _ unit_pos, log2_units h, hround, if_neg hne]
  exact ofParts?_eq_some

/-- The number of digits of the whole value lies within the bounds of reading. -/
theorem order_exact {x : Magnitude} (h : x.mantissa ≠ 0) :
    743 < (Nat.toDigits 10 (x.units * Nat.pow 5 1074)).length
      ∧ (Nat.toDigits 10 (x.units * Nat.pow 5 1074)).length ≤ 1384 :=
  length_decimal_mul (by decide) (by decide +kernel) (by decide +kernel)
    (Nat.pos_of_ne_zero (units_ne_zero h)) (units_le (Nat.le_of_lt x.normal.1) x.normal.2.1)

/-- **A magnitude that is written out reads back.** -/
theorem exact_readsAs {x : Magnitude} (h : x.mantissa ≠ 0) : x.exact.readsAs x = true := by
  have hdigits : x.units * Nat.pow 5 1074 ≠ 0 :=
    Nat.mul_ne_zero (units_ne_zero h) (by decide +kernel)
  obtain ⟨hlow, hhigh⟩ := order_exact h
  have hover : ¬ 310 < ((Nat.toDigits 10 (x.units * Nat.pow 5 1074)).length : Int) + -1074 := by
    omega
  have hunder : ¬ ((Nat.toDigits 10 (x.units * Nat.pow 5 1074)).length : Int) + -1074 < -330 := by
    omega
  have hone : Nat.pow 10 (-1074 : Int).toNat = 1 := by decide
  have hten : Nat.pow 10 (-(-1074) : Int).toNat = unit * Nat.pow 5 1074 := by decide +kernel
  have hvalue : nearest? (x.units * Nat.pow 5 1074 * 1) (unit * Nat.pow 5 1074) = some x := by
    rw [Nat.mul_one, nearest?_scale _ _ (by decide +kernel), nearest?_units h]
  simp only [Decimal.readsAs, exact, ofDecimal?, hdigits, hover, hunder, if_false, hone, hten,
    hvalue, decide_true]

/-- **The shortest digits read back.** -/
theorem shortest_readsAs (tie : Tie) (x : Magnitude) : (x.shortest tie).readsAs x = true := by
  unfold shortest
  by_cases h : x.mantissa = 0
  · have hzero : x = zero := by
      obtain ⟨mantissa, shift, normal⟩ := x
      obtain rfl : mantissa = 0 := h
      obtain rfl : shift = 0 := normal.2.2.resolve_left (by decide)
      rfl
    rw [if_pos h, hzero]
    rfl
  · rw [if_neg h]
    split
    · rename_i d hd
      obtain ⟨count, _, hcount⟩ := List.exists_of_findSome?_eq_some hd
      rw [onGrid?] at hcount
      generalize x.neighbours (x.order - count) = around at hcount
      exact readsAs_of_nearer? hcount
    · exact exact_readsAs h

end QueryScribe.Magnitude
