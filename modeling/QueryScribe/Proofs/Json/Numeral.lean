import QueryScribe.Json.Reader
import QueryScribe.Json.Writer
import QueryScribe.Proofs.Double.Nearest
import QueryScribe.Proofs.Text.Digits

/-!
# Numerals read back

A numeral is read one character at a time.  `Numeral.read?` reads a whole numeral, and
`read?_writeNumber` says that the text of a number is a numeral of the same number: whole
numbers within the bounds of integers stay integers, and a double is read back from
its shortest digits wherever the point stands and however the power is written.
-/

namespace QueryScribe.Json

open QueryScribe.Text

namespace Numeral

/-- A numeral after some more characters, all of which belong to it. -/
def run? (n : Numeral) : List Char → Option Numeral
  | [] => some n
  | c :: r =>
    match n.extend c with
    | .ok (some m) => run? m r
    | _ => none

def read? : List Char → Option Numeral
  | [] => none
  | c :: r => (start? c).bind (run? · r)

def ended (n : Numeral) : Prop :=
  n.phase = .zero ∨ n.phase = .whole ∨ n.phase = .fraction ∨ n.phase = .power

theorem run?_append (n : Numeral) (a b : List Char) :
    n.run? (a ++ b) = (n.run? a).bind (run? · b) := by
  induction a generalizing n with
  | nil => rfl
  | cons c a ih =>
    rw [List.cons_append, run?, run?]
    cases n.extend c with
    | error e => rfl
    | ok m =>
      cases m with
      | none => rfl
      | some m => exact ih m

theorem run?_cons {n m : Numeral} {c : Char} (h : n.extend c = .ok (some m)) (r : List Char) :
    n.run? (c :: r) = m.run? r := by
  rw [run?, h]

/-! ### Runs of digits -/

section Digits

variable {n : Numeral} {ds : List Char} (hd : ∀ c ∈ ds, c.isDigit = true)
include hd

theorem run?_whole (h : n.phase = .whole) :
    n.run? ds = some { n with digits := Nat.ofDigitChars 10 ds n.digits } := by
  induction ds generalizing n with
  | nil => rw [run?, Nat.ofDigitChars_nil]
  | cons c r ih =>
    have hc : n.extend c = .ok (some (n.push .whole c)) := by
      rw [extend, h]
      simp [hd c (by simp)]
    rw [run?_cons hc, ih (fun d hr => hd d (by simp [hr])) rfl, Nat.ofDigitChars_cons, push, h]
    rfl

theorem run?_fraction (h : n.phase = .fraction) :
    n.run? ds = some { n with
      digits := Nat.ofDigitChars 10 ds n.digits
      places := n.places + ds.length } := by
  induction ds generalizing n with
  | nil => rw [run?, Nat.ofDigitChars_nil]; rfl
  | cons c r ih =>
    have hc : n.extend c = .ok (some { n.push .fraction c with places := n.places + 1 }) := by
      rw [extend, h]
      simp [hd c (by simp)]
    rw [run?_cons hc, ih (fun d hr => hd d (by simp [hr])) rfl, Nat.ofDigitChars_cons, push,
      List.length_cons, h, Nat.add_assoc, Nat.add_comm 1]
    rfl

theorem run?_power (h : n.phase = .power) :
    n.run? ds = some { n with power := Nat.ofDigitChars 10 ds n.power } := by
  induction ds generalizing n with
  | nil => rw [run?, Nat.ofDigitChars_nil]
  | cons c r ih =>
    have hc : n.extend c = .ok (some { n with power := 10 * n.power + digit c }) := by
      rw [extend, h]
      simp [hd c (by simp)]
    have hr := ih (n := { n with power := 10 * n.power + digit c })
      (fun d hr => hd d (by simp [hr])) h
    rw [run?_cons hc, hr, Nat.ofDigitChars_cons]
    rfl

end Digits

/-! ### Signs -/

theorem extend_negative (n : Numeral) (b : Bool) (c : Char) :
    { n with negative := b }.extend c
      = (n.extend c).map (Option.map fun m => { m with negative := b }) := by
  unfold extend push
  cases n.phase <;> dsimp only <;> repeat' (first | rfl | split)

/-- The sign of a numeral has no part in how it is read. -/
theorem run?_negative (n : Numeral) (b : Bool) (t : List Char) :
    { n with negative := b }.run? t = (n.run? t).map fun m => { m with negative := b } := by
  induction t generalizing n with
  | nil => rfl
  | cons c r ih =>
    rw [run?, run?, extend_negative]
    cases n.extend c with
    | error e => rfl
    | ok m =>
      cases m with
      | none => rfl
      | some m => exact ih m

theorem read?_minus {c : Char} {r : List Char} {n : Numeral} (hc : c.isDigit = true)
    (h : read? (c :: r) = some n) : read? ('-' :: c :: r) = some { n with negative := true } := by
  have hm : c ≠ '-' := by
    rintro rfl
    exact absurd hc (by decide)
  rw [read?, Option.bind_eq_some_iff] at h
  obtain ⟨n₀, hstart, hrun⟩ := h
  have hsign : (⟨.sign, true, 0, 0, false, 0⟩ : Numeral).extend c
      = .ok (some { n₀ with negative := true }) := by
    rw [start?, if_neg hm] at hstart
    rw [extend]
    dsimp only
    by_cases h0 : c = '0'
    · rw [if_pos h0] at hstart ⊢
      rw [← Option.some.inj hstart]
    · rw [if_neg h0, if_pos hc] at hstart ⊢
      rw [← Option.some.inj hstart, push]
      simp
  show (run? ⟨.sign, true, 0, 0, false, 0⟩ (c :: r)) = _
  rw [run?_cons hsign, run?_negative, hrun]
  rfl

/-! ### Digits -/

/-- The numeral that digits begin, the first of them not zero. -/
theorem start?_digit {c : Char} (hc : c.isDigit = true) (h0 : c ≠ '0') :
    start? c = some ⟨.whole, false, digit c, 0, false, 0⟩ := by
  have hm : c ≠ '-' := by
    rintro rfl
    exact absurd hc (by decide)
  rw [start?, if_neg hm, if_neg h0, if_pos hc]

/-- Digits are read as a whole number, and what follows goes on from there. -/
theorem read?_digits {c : Char} {r : List Char} (hd : ∀ d ∈ c :: r, d.isDigit = true)
    (h0 : c ≠ '0') (t : List Char) :
    read? (c :: (r ++ t))
      = run? ⟨.whole, false, Nat.ofDigitChars 10 (c :: r) 0, 0, false, 0⟩ t := by
  have hr : ∀ d ∈ r, d.isDigit = true := fun d h => hd d (by simp [h])
  rw [read?, start?_digit (hd c (by simp)) h0, Option.bind_some, run?_append, run?_whole hr rfl,
    Option.bind_some, Nat.ofDigitChars_cons, Nat.mul_zero, Nat.zero_add]
  rfl

/-- Digits after a point, of which there is at least one. -/
theorem run?_point {n : Numeral} {ds : List Char} (hd : ∀ d ∈ ds, d.isDigit = true)
    (hne : ds ≠ []) (hn : n.phase = .zero ∨ n.phase = .whole) (t : List Char) :
    n.run? ('.' :: (ds ++ t))
      = run? { n with
          phase := .fraction
          digits := Nat.ofDigitChars 10 ds n.digits
          places := ds.length } t := by
  have hpoint : n.extend '.' = .ok (some { n with phase := .point }) := by
    rw [extend]
    rcases hn with hn | hn <;> rw [hn] <;> rfl
  cases ds with
  | nil => exact absurd rfl hne
  | cons c r =>
    have hfirst : { n with phase := .point }.extend c
        = .ok (some { n.push .fraction c with places := 1 }) := by
      rw [extend]
      simp [hd c (by simp), push]
    have hr : ∀ d ∈ r, d.isDigit = true := fun d h => hd d (by simp [h])
    rw [run?_cons hpoint, List.cons_append, run?_cons hfirst, run?_append,
      run?_fraction hr (by rfl), Option.bind_some, Nat.ofDigitChars_cons, List.length_cons,
      Nat.add_comm 1]
    rfl

theorem run?_mark {n : Numeral} (power : Int) (hn : n.phase = .whole ∨ n.phase = .fraction) :
    n.run? ('e' :: ((if 0 ≤ power then ['+'] else []) ++ signed power))
      = some { n with
          phase := .power
          negativePower := if 0 ≤ power then n.negativePower else true
          power := power.natAbs } := by
  have hmark : n.extend 'e' = .ok (some { n with phase := .mark }) := by
    rw [extend]
    rcases hn with hn | hn <;> rw [hn] <;> rfl
  have digits (b : Bool) :
      { n with phase := .powerSign, negativePower := b }.run? (decimal power.natAbs)
        = some { n with phase := .power, negativePower := b, power := power.natAbs } := by
    have hd : ∀ d ∈ decimal power.natAbs, d.isDigit = true := fun d h => isDigit_of_mem_decimal h
    have hvalue := ofDigitChars_decimal power.natAbs
    cases hds : decimal power.natAbs with
    | nil => exact absurd hds Nat.toDigits_ne_nil
    | cons c r =>
      rw [hds] at hd hvalue
      have hfirst : { n with phase := .powerSign, negativePower := b }.extend c
          = .ok (some { n with phase := .power, negativePower := b, power := digit c }) := by
        rw [extend]
        simp [hd c (by simp)]
      have hr : ∀ d ∈ r, d.isDigit = true := fun d h => hd d (by simp [h])
      rw [Nat.ofDigitChars_cons, Nat.mul_zero, Nat.zero_add] at hvalue
      rw [run?_cons hfirst, run?_power hr (by rfl)]
      dsimp only
      rw [digit, hvalue]
  rw [run?_cons hmark]
  by_cases hp : 0 ≤ power
  · have hplus : { n with phase := .mark }.extend '+'
        = .ok (some { n with phase := .powerSign }) := by
      rw [extend]
      rfl
    rw [if_pos hp, if_pos hp, signed, if_neg (by omega), List.singleton_append, run?_cons hplus]
    exact digits n.negativePower
  · have hminus : { n with phase := .mark }.extend '-'
        = .ok (some { n with phase := .powerSign, negativePower := true }) := by
      rw [extend]
      rfl
    rw [if_neg hp, if_neg hp, signed, if_pos (by omega), List.nil_append, run?_cons hminus]
    exact digits true

/-! ### Doubles -/

/-- A numeral without a sign that writes a magnitude. -/
structure Writes (n : Numeral) (x : Magnitude) : Prop where
  phase : n.phase = .fraction ∨ n.phase = .power
  negative : n.negative = false
  value : Magnitude.ofDecimal? n.digits
    ((if n.negativePower then -(n.power : Int) else n.power) - n.places) = some x

theorem Writes.close {n : Numeral} {x : Magnitude} (h : n.Writes x) (b : Bool) :
    { n with negative := b }.close = .ok (.double b x) := by
  have hdouble : { n with negative := b }.double? = .ok (.double b x) := by
    rw [double?]
    dsimp only
    rw [h.value]
  rw [Numeral.close]
  rcases h.phase with hp | hp <;> rw [hp] <;> exact hdouble

section Decimal

variable {d : Decimal} {x : Magnitude} (hx : Magnitude.ofDecimal? d.digits d.power = some x)
  (h0 : d.digits ≠ 0)
include hx h0

theorem read?_trailing (hp : 0 ≤ d.power) :
    ∃ n, read? (decimal d.digits ++ List.replicate d.power.toNat '0' ++ ['.', '0']) = some n
      ∧ n.Writes x := by
  obtain ⟨c, r, hr, hc, hd⟩ := exists_decimal h0
  have hall : ∀ e ∈ c :: (r ++ List.replicate d.power.toNat '0'), e.isDigit = true := by
    intro e he
    rw [← List.cons_append, List.mem_append] at he
    rcases he with he | he
    · exact hd e he
    · rw [List.eq_of_mem_replicate he]
      decide
  have hvalue : Nat.ofDigitChars 10 (c :: (r ++ List.replicate d.power.toNat '0')) 0
      = d.digits * Nat.pow 10 d.power.toNat := by
    rw [← List.cons_append, Nat.ofDigitChars_append, ← hr, ofDigitChars_decimal,
      Nat.ofDigitChars_replicate_zero, Nat.mul_comm]
    rfl
  refine ⟨⟨.fraction, false, Nat.ofDigitChars 10 ['0'] (d.digits * Nat.pow 10 d.power.toNat), 1,
    false, 0⟩, ?_, .inl rfl, rfl, ?_⟩
  · rw [hr, List.cons_append, List.cons_append, read?_digits hall hc, hvalue]
    exact @run?_point _ ['0'] (by simp) (by decide) (.inr rfl) []
  · have hzeros := Magnitude.ofDecimal?_zeros d.digits (d.power.toNat + 1) d.power
    have hpower : d.power - (d.power.toNat + 1 : Nat) = -1 := by omega
    rw [hpower, hx, Magnitude.ten_pow_succ, ← Nat.mul_assoc, Nat.mul_comm _ 10] at hzeros
    exact hzeros

theorem read?_among (hp : d.power < 0) (hpoint : 0 < (decimal d.digits).length + d.power) :
    ∃ n, read? ((decimal d.digits).take ((decimal d.digits).length + d.power).toNat
        ++ '.' :: (decimal d.digits).drop ((decimal d.digits).length + d.power).toNat) = some n
      ∧ n.Writes x := by
  obtain ⟨c, r, hr, hc, hd⟩ := exists_decimal h0
  have hvalue := ofDigitChars_decimal d.digits
  rw [hr] at hpoint hvalue ⊢
  rw [List.length_cons] at hpoint ⊢
  obtain ⟨k, hk⟩ : ∃ k, ((r.length + 1 : Nat) + d.power).toNat = k + 1 :=
    ⟨((r.length + 1 : Nat) + d.power).toNat - 1, by omega⟩
  rw [hk, List.take_succ_cons, List.drop_succ_cons, List.cons_append]
  have hwhole : ∀ e ∈ c :: r.take k, e.isDigit = true := by
    intro e he
    rcases List.mem_cons.1 he with rfl | he
    · exact hd e (by simp)
    · exact hd e (List.mem_cons_of_mem c (List.mem_of_mem_take he))
  have hfraction : ∀ e ∈ r.drop k, e.isDigit = true := fun e he =>
    hd e (List.mem_cons_of_mem c (List.mem_of_mem_drop he))
  have hne : r.drop k ≠ [] := by
    rw [Ne, List.drop_eq_nil_iff]
    omega
  have hjoin : Nat.ofDigitChars 10 (r.drop k) (Nat.ofDigitChars 10 (c :: r.take k) 0)
      = d.digits := by
    rw [← Nat.ofDigitChars_append, List.cons_append, List.take_append_drop, hvalue]
  refine ⟨⟨.fraction, false, d.digits, (r.drop k).length, false, 0⟩, ?_, .inl rfl, rfl, ?_⟩
  · have hrest := run?_point (n := ⟨.whole, false, Nat.ofDigitChars 10 (c :: r.take k) 0, 0, false,
      0⟩) hfraction hne (.inr rfl) []
    rw [List.append_nil] at hrest
    rw [read?_digits hwhole hc, hrest, hjoin]
    rfl
  · have hpower : (0 : Int) - (r.drop k).length = d.power := by
      rw [List.length_drop]
      omega
    dsimp only
    rw [if_neg (by decide), Int.natCast_zero, hpower, hx]

omit h0 in
theorem read?_behind (hpoint : (decimal d.digits).length + d.power ≤ 0) :
    ∃ n, read? ('0' :: '.' :: List.replicate (-((decimal d.digits).length + d.power)).toNat '0'
        ++ decimal d.digits) = some n ∧ n.Writes x := by
  have hall : ∀ e ∈ List.replicate (-((decimal d.digits).length + d.power)).toNat '0'
      ++ decimal d.digits, e.isDigit = true := by
    intro e he
    rcases List.mem_append.1 he with he | he
    · rw [List.eq_of_mem_replicate he]
      decide
    · exact isDigit_of_mem_decimal he
  have hvalue : Nat.ofDigitChars 10 (List.replicate
      (-((decimal d.digits).length + d.power)).toNat '0' ++ decimal d.digits) 0 = d.digits := by
    rw [Nat.ofDigitChars_append, Nat.ofDigitChars_replicate_zero, Nat.mul_zero,
      ofDigitChars_decimal]
  have hne : List.replicate (-((decimal d.digits).length + d.power)).toNat '0'
      ++ decimal d.digits ≠ [] :=
    List.append_ne_nil_of_right_ne_nil _ Nat.toDigits_ne_nil
  have hrest := run?_point (n := ⟨.zero, false, 0, 0, false, 0⟩) hall hne (.inl rfl) []
  rw [List.append_nil, hvalue] at hrest
  refine ⟨_, hrest, .inl rfl, rfl, ?_⟩
  have hpower : (0 : Int) - (List.replicate (-((decimal d.digits).length + d.power)).toNat '0'
      ++ decimal d.digits).length = d.power := by
    rw [List.length_append, List.length_replicate]
    omega
  dsimp only
  rw [if_neg (by decide), Int.natCast_zero, hpower, hx]

/-- One digit, the others after a point, and a power of ten. -/
theorem read?_scientific : ∃ n, read? (d.scientific true) = some n ∧ n.Writes x := by
  obtain ⟨c, r, hr, hc, hd⟩ := exists_decimal h0
  have hvalue := ofDigitChars_decimal d.digits
  have hfirst : ∀ e ∈ [c], e.isDigit = true := fun e he => hd e (by simp_all)
  have hrest : ∀ e ∈ r, e.isDigit = true := fun e he => hd e (List.mem_cons_of_mem c he)
  rw [hr] at hvalue
  have hpower (power : Int) (places : Nat) (h : power - places = d.power) :
      Magnitude.ofDecimal? d.digits
        ((if (if 0 ≤ power then false else true) = true then -(power.natAbs : Int)
          else power.natAbs) - places) = some x := by
    have habs : (if (if 0 ≤ power then false else true) = true then -(power.natAbs : Int)
        else power.natAbs) = power := by
      by_cases hp : 0 ≤ power
      · rw [if_pos hp, if_neg (by decide)]
        omega
      · rw [if_neg hp, if_pos rfl]
        omega
    rw [habs, h, hx]
  have htext : d.scientific true
      = c :: ([] ++ ((if r.isEmpty then [] else '.' :: r) ++ 'e' ::
        ((if 0 ≤ (r.length : Int) + d.power then ['+'] else [])
          ++ signed (r.length + d.power)))) := by
    have hlength : ((c :: r).length : Int) + d.power - 1 = r.length + d.power := by
      rw [List.length_cons]
      omega
    simp only [Decimal.scientific, hr, hlength, List.take_succ_cons, List.take_zero,
      List.drop_succ_cons, List.drop_zero, true_and, List.append_assoc, List.cons_append,
      List.nil_append]
  refine ⟨⟨.power, false, d.digits, r.length,
    if 0 ≤ (r.length : Int) + d.power then false else true, ((r.length : Int) + d.power).natAbs⟩,
    ?_, .inr rfl, rfl, hpower (r.length + d.power) r.length (by omega)⟩
  rw [htext, read?_digits hfirst hc]
  cases r with
  | nil =>
    rw [hvalue]
    exact run?_mark _ (.inl rfl)
  | cons e r =>
    have hpoint := run?_point (n := ⟨.whole, false, Nat.ofDigitChars 10 [c] 0, 0, false, 0⟩) hrest
      (by simp) (.inr rfl) ('e' :: ((if 0 ≤ ((e :: r).length : Int) + d.power then ['+'] else [])
        ++ signed ((e :: r).length + d.power)))
    have hjoin : Nat.ofDigitChars 10 (e :: r) (Nat.ofDigitChars 10 [c] 0) = d.digits := by
      rw [← Nat.ofDigitChars_append, List.singleton_append, hvalue]
    rw [hjoin] at hpoint
    rw [if_neg (by simp), List.cons_append, hpoint]
    exact run?_mark _ (.inr rfl)

end Decimal

/-- The digits of a magnitude in one of their written forms. -/
theorem read?_write (x : Magnitude) : ∃ n, read? (x.write .json) = some n ∧ n.Writes x := by
  have hreads := Magnitude.shortest_readsAs .even x
  rw [Decimal.readsAs, decide_eq_true_eq] at hreads
  by_cases h0 : x.mantissa = 0
  · have hshortest : x.shortest .even = ⟨0, 0⟩ := by rw [Magnitude.shortest, if_pos h0]
    have htext : x.write .json = ['0', '.', '0'] := by
      rw [Magnitude.write, FloatStyle.json, hshortest]
      decide
    rw [hshortest, Magnitude.ofDecimal?_zero] at hreads
    refine ⟨⟨.fraction, false, 0, 1, false, 0⟩, by rw [htext]; rfl, .inl rfl, rfl, ?_⟩
    dsimp only
    rw [Magnitude.ofDecimal?_zero, hreads]
  · have hdigits : (x.shortest .even).digits ≠ 0 := by
      intro hd
      rw [hd, Magnitude.ofDecimal?_zero] at hreads
      refine h0 ?_
      rw [← Option.some.inj hreads]
      rfl
    rw [Magnitude.write, Decimal.write]
    split
    · rw [Decimal.plain]
      split
      · exact read?_trailing hreads hdigits ‹_›
      · split
        · exact read?_among hreads hdigits (by omega) ‹_›
        · exact read?_behind hreads (by omega)
    · exact read?_scientific hreads hdigits

/-- A numeral without a sign begins with a digit. -/
theorem exists_digit {t : List Char} {n : Numeral} (h : read? t = some n)
    (hn : n.negative = false) : ∃ c r, t = c :: r ∧ c.isDigit = true := by
  cases t with
  | nil => exact absurd h nofun
  | cons c r =>
    refine ⟨c, r, rfl, ?_⟩
    rw [read?, Option.bind_eq_some_iff] at h
    obtain ⟨n₀, hstart, hrun⟩ := h
    rw [start?] at hstart
    split at hstart
    · have hsame : { n₀ with negative := true } = n₀ := by rw [← Option.some.inj hstart]
      rw [← hsame, run?_negative, Option.map_eq_some_iff] at hrun
      obtain ⟨m, _, rfl⟩ := hrun
      exact absurd hn nofun
    · split at hstart
      · rename_i hc
        rw [hc]
        decide
      · obtain ⟨hc, _⟩ := Option.ite_none_right_eq_some.1 hstart
        exact hc

/-- A numeral without a sign, and the sign that it is given. -/
theorem read?_sign {t : List Char} {n : Numeral} (h : read? t = some n)
    (hn : n.negative = false) (b : Bool) :
    read? (if b = true then '-' :: t else t) = some { n with negative := b } := by
  cases b with
  | true =>
    obtain ⟨c, r, rfl, hc⟩ := exists_digit h hn
    exact read?_minus hc h
  | false =>
    have hsame : { n with negative := false } = n := by rw [← hn]
    rw [hsame]
    exact h

/-! ### Numbers -/

theorem read?_decimal (m : Nat) : ∃ n, read? (decimal m) = some n
    ∧ (n.phase = .zero ∨ n.phase = .whole) ∧ n.negative = false ∧ n.digits = m := by
  by_cases h : m = 0
  · rw [h]
    exact ⟨⟨.zero, false, 0, 0, false, 0⟩, rfl, .inl rfl, rfl, rfl⟩
  · obtain ⟨c, r, hr, hc, hd⟩ := exists_decimal h
    have hread := read?_digits hd hc []
    rw [List.append_nil, ← hr, ofDigitChars_decimal] at hread
    exact ⟨_, hread, .inr rfl, rfl, rfl⟩

end Numeral

/-- A number that is read as it is written: an integer within the bounds of integers. -/
def InBounds : JsonNumber → Prop
  | .integer i => -0x8000000000000000 ≤ i ∧ i < 0x10000000000000000
  | .double _ _ => True

/-- A whole numeral within the bounds is an integer. -/
theorem Numeral.close_integer {n : Numeral} {i : Int} (h : InBounds (.integer i))
    (hphase : n.phase = .zero ∨ n.phase = .whole) (hnegative : n.negative = decide (i < 0))
    (hdigits : n.digits = i.natAbs) : n.close = .ok (.integer i) := by
  have hwhole : n.close = if n.negative = true then
        if 0 < n.digits ∧ n.digits ≤ 0x8000000000000000 then .ok (.integer (-n.digits))
        else n.double?
      else if n.digits < 0x10000000000000000 then .ok (.integer n.digits) else n.double? := by
    rw [close]
    rcases hphase with hp | hp
    · rw [hp]
    · rw [hp]
  obtain ⟨hlow, hhigh⟩ := h
  rw [hwhole, hnegative, hdigits]
  by_cases hi : i < 0
  · have hbounds : 0 < i.natAbs ∧ i.natAbs ≤ 0x8000000000000000 := by omega
    have hvalue : -(i.natAbs : Int) = i := by omega
    rw [decide_eq_true hi, if_pos rfl, if_pos hbounds, hvalue]
  · have hbound : i.natAbs < 0x10000000000000000 := by omega
    have hvalue : (i.natAbs : Int) = i := by omega
    rw [decide_eq_false hi, if_neg (by decide), if_pos hbound, hvalue]

/-- **The text of a number is a numeral of this number.** -/
theorem Numeral.read?_writeNumber {m : JsonNumber} (h : InBounds m) :
    ∃ n, read? (writeNumber m) = some n ∧ n.ended ∧ n.close = .ok m := by
  cases m with
  | integer i =>
    obtain ⟨n, hread, hphase, hneg, hdigits⟩ := read?_decimal i.natAbs
    have htext := read?_sign hread hneg (decide (i < 0))
    simp only [decide_eq_true_eq] at htext
    refine ⟨_, htext, ?_, close_integer h hphase rfl hdigits⟩
    rcases hphase with hp | hp
    · exact .inl hp
    · exact .inr (.inl hp)
  | double negative x =>
    obtain ⟨n, hread, hwrites⟩ := read?_write x
    refine ⟨_, read?_sign hread hwrites.negative negative, ?_, hwrites.close negative⟩
    rcases hwrites.phase with hp | hp
    · exact .inr (.inr (.inl hp))
    · exact .inr (.inr (.inr hp))

end QueryScribe.Json
