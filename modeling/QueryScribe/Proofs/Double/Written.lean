import QueryScribe.Double.Layout
import QueryScribe.Proofs.Text.Digits

/-!
# Whole numbers and doubles in text

A whole number is written with digits and perhaps a sign.  A finite double begins like
one, but it has a point or a power of ten, so no double is written as a whole number is.
-/

namespace QueryScribe

open QueryScribe.Text

/-- A digit or a minus sign. -/
def isWholePart (c : Char) : Bool := c.isDigit || c = '-'

theorem mem_of_isWholePart {c : Char} (h : isWholePart c = true) : c ∈ "-0123456789".toList := by
  have digits : ∀ n < 58, 48 ≤ n → Char.ofNat n ∈ "-0123456789".toList := by decide
  rw [isWholePart, Bool.or_eq_true, decide_eq_true_eq] at h
  rcases h with h | rfl
  · rw [Char.isDigit_iff_toNat] at h
    rw [← Char.ofNat_toNat c]
    exact digits _ (Nat.lt_succ_of_le h.2) h.1
  · decide

theorem isWholePart_decimal {n : Nat} {c : Char} (h : c ∈ decimal n) : isWholePart c = true := by
  simp [isWholePart, isDigit_of_mem_decimal h]

theorem isWholePart_signed {i : Int} {c : Char} (h : c ∈ signed i) : isWholePart c = true := by
  rw [signed] at h
  split at h
  · rcases List.mem_cons.1 h with rfl | h
    · rfl
    · exact isWholePart_decimal h
  · exact isWholePart_decimal h

theorem signed_ne_nil (i : Int) : signed i ≠ [] := by
  rw [signed]
  split
  · exact List.cons_ne_nil _ _
  · exact Nat.toDigits_ne_nil

theorem signed_inj {i j : Int} (h : signed i = signed j) : i = j := by
  have hi := readSigned?_signed i
  rw [h, readSigned?_signed] at hi
  exact (Option.some.inj hi).symm

theorem decimal_inj {m n : Nat} (h : decimal m = decimal n) : m = n := by
  rw [← ofDigitChars_decimal m, h, ofDigitChars_decimal]

/-- A text that begins as numbers do, but with a mark of doubles in it. -/
def IsDouble (t : List Char) : Prop :=
  (∃ c r, t = c :: r ∧ isWholePart c = true) ∧ ∃ c ∈ t, isWholePart c = false

theorem isDouble_plain (d : Decimal) : IsDouble d.plain := by
  obtain ⟨c, r, hd, hc⟩ := exists_cons_decimal d.digits
  have hwhole : isWholePart c = true := by simp [isWholePart, hc]
  rw [Decimal.plain, hd]
  split
  · exact ⟨⟨c, _, rfl, hwhole⟩, '.', by simp, by decide⟩
  · split
    · rename_i hpoint
      obtain ⟨k, hk⟩ : ∃ k, (((c :: r).length : Int) + d.power).toNat = k + 1 :=
        Nat.exists_eq_succ_of_ne_zero (by omega)
      rw [hk]
      exact ⟨⟨c, _, rfl, hwhole⟩, '.', by simp, by decide⟩
    · exact ⟨⟨'0', _, rfl, by decide⟩, '.', by simp, by decide⟩

theorem isDouble_scientific (plus : Bool) (d : Decimal) : IsDouble (d.scientific plus) := by
  obtain ⟨c, r, hd, hc⟩ := exists_cons_decimal d.digits
  have hwhole : isWholePart c = true := by simp [isWholePart, hc]
  rw [Decimal.scientific, hd]
  exact ⟨⟨c, _, rfl, hwhole⟩, 'e', by simp, by decide⟩

/-- **A finite double is not written as a whole number is.** -/
theorem isDouble_writeFinite (style : FloatStyle) (negative : Bool) (x : Magnitude) :
    IsDouble (Double.writeFinite style negative x) := by
  have body : IsDouble (x.write style) := by
    rw [Magnitude.write, Decimal.write]
    split
    · exact isDouble_plain _
    · exact isDouble_scientific _ _
  rw [Double.writeFinite]
  split
  · obtain ⟨_, c, hc, hmark⟩ := body
    exact ⟨⟨'-', _, rfl, by decide⟩, c, List.mem_cons_of_mem _ hc, hmark⟩
  · exact body

end QueryScribe
