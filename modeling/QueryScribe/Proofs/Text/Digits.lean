import QueryScribe.Text.Digits

/-!
# Written numbers

Hexadecimal digits are the images of the numbers below sixteen, so a fact about
each of them is settled by trying the sixteen.  Numbers in base ten are read back as
they are written, with or without a sign: `readNat?_decimal` and `readSigned?_signed`.
-/

namespace QueryScribe.Text

theorem exists_of_mem_hexFixed {width n : Nat} {c : Char} (h : c ∈ hexFixed width n) :
    ∃ d < 16, c = Nat.digitChar d := by
  induction width generalizing n with
  | zero => simp [hexFixed] at h
  | succ width ih =>
    rw [hexFixed, List.mem_append, List.mem_singleton] at h
    rcases h with h | rfl
    · exact ih h
    · exact ⟨n % 16, Nat.mod_lt _ (by decide), rfl⟩

theorem hexValue?_digitChar : ∀ d < 16, hexValue? (Nat.digitChar d) = some d := by decide

/-! ### Base ten -/

theorem readNat?_decimal (n : Nat) : readNat? (decimal n) = some n := by
  have hall : (decimal n).all Char.isDigit = true :=
    List.all_eq_true.2 fun _ h => isDigit_of_mem_decimal h
  have hne : decimal n ≠ [] := Nat.toDigits_ne_nil
  rw [readNat?, if_pos ⟨hne, hall⟩, ofDigitChars_decimal]

/-- The digits of a number other than zero begin with a digit other than zero. -/
theorem exists_decimal {n : Nat} (h : n ≠ 0) :
    ∃ c r, decimal n = c :: r ∧ c ≠ '0' ∧ ∀ d ∈ c :: r, d.isDigit = true := by
  have head : ∃ c r, decimal n = c :: r ∧ c ≠ '0' := by
    induction n using Nat.strongRecOn with
    | ind n ih =>
      by_cases hlt : n < 10
      · have nonzero : ∀ m < 10, m ≠ 0 → Nat.digitChar m ≠ '0' := by decide
        exact ⟨_, [], Nat.toDigits_of_lt_base hlt, nonzero n hlt h⟩
      · obtain ⟨c, r, hr, hc⟩ := ih (n / 10) (by omega) (by omega)
        refine ⟨c, r ++ [Nat.digitChar (n % 10)], ?_, hc⟩
        rw [decimal, Nat.toDigits_of_base_le (by decide) (by omega)]
        rw [decimal] at hr
        rw [hr, List.cons_append]
  obtain ⟨c, r, hr, hc⟩ := head
  exact ⟨c, r, hr, hc, fun d hd => isDigit_of_mem_decimal (n := n) (by rwa [hr])⟩

/-- A text that begins with a digit has no sign. -/
theorem spanSign_digit {c : Char} (h : c.isDigit = true) (r : List Char) :
    spanSign (c :: r) = (false, c :: r) := by
  unfold spanSign
  split
  · rename_i heq
    obtain ⟨rfl, _⟩ := List.cons.inj heq
    exact absurd h (by decide)
  · rename_i heq
    obtain ⟨rfl, _⟩ := List.cons.inj heq
    exact absurd h (by decide)
  · rfl

theorem exists_cons_decimal (n : Nat) : ∃ c r, decimal n = c :: r ∧ c.isDigit = true := by
  cases h : decimal n with
  | nil => exact absurd h Nat.toDigits_ne_nil
  | cons c r => exact ⟨c, r, rfl, isDigit_of_mem_decimal (n := n) (by rw [h]; simp)⟩

theorem spanSign_decimal (n : Nat) : spanSign (decimal n) = (false, decimal n) := by
  obtain ⟨c, r, h, hc⟩ := exists_cons_decimal n
  rw [h, spanSign_digit hc]

/-- An integer is read back, with or without a plus sign. -/
theorem readSigned?_plus {i : Int} (h : 0 ≤ i) : readSigned? ('+' :: signed i) = some i := by
  have hs : signed i = decimal i.natAbs := if_neg (by omega)
  have hvalue : (i.natAbs : Int) = i := by omega
  rw [hs, readSigned?, spanSign]
  dsimp only
  rw [readNat?_decimal]
  exact congrArg some hvalue

theorem readSigned?_signed (i : Int) : readSigned? (signed i) = some i := by
  by_cases h : i < 0
  · have hs : signed i = '-' :: decimal i.natAbs := if_pos h
    have hvalue : -(i.natAbs : Int) = i := by omega
    rw [hs, readSigned?, spanSign]
    dsimp only
    rw [readNat?_decimal]
    exact congrArg some hvalue
  · have hs : signed i = decimal i.natAbs := if_neg h
    have hvalue : (i.natAbs : Int) = i := by omega
    rw [hs, readSigned?, spanSign_decimal]
    dsimp only
    rw [readNat?_decimal]
    exact congrArg some hvalue

end QueryScribe.Text
