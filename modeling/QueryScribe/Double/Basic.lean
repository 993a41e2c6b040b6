import QueryScribe.Text.Digits

/-!
# Binary floating-point numbers

A finite double is a whole multiple of `2 ^ (-1074)`, the least positive one.
`Magnitude` holds its absolute value as `mantissa * 2 ^ shift` of these units, in
the one form with at most 53 binary digits and the least shift, so equal values
are equal structures.  A double is a magnitude with a sign, an infinity with a
sign, or a NaN, whose sign is kept because it is written.

The text of a double is an optional sign and then `inf`, `infinity` or `nan` in
any case, or digits with at most one point among them, of which there is at
least one digit, and an optional power of ten.  The number is rounded to the
nearest double; one that is too large is infinite.
-/

namespace QueryScribe

/-- An absolute value: `mantissa * 2 ^ shift` units of `2 ^ (-1074)`. -/
structure Magnitude where
  mantissa : Nat
  shift : Nat
  normal : mantissa < Nat.pow 2 53 ∧ shift ≤ 2045 ∧ (Nat.pow 2 52 ≤ mantissa ∨ shift = 0)
  deriving DecidableEq

namespace Magnitude

/-- The number of units of `2 ^ (-1074)`. -/
def units (x : Magnitude) : Nat := x.mantissa * Nat.pow 2 x.shift

/-- How many units make one. -/
def unit : Nat := Nat.pow 2 1074

def ofParts? (mantissa shift : Nat) : Option Magnitude :=
  if h : mantissa < Nat.pow 2 53 ∧ shift ≤ 2045 ∧ (Nat.pow 2 52 ≤ mantissa ∨ shift = 0) then
    some ⟨mantissa, shift, h⟩
  else none

def zero : Magnitude := ⟨0, 0, by decide⟩

/-- The quotient rounded to the nearest whole number, a half to the even one. -/
def roundHalfEven (num den : Nat) : Nat :=
  let q := num / den
  let r := num % den
  if 2 * r < den then q else if den < 2 * r then q + 1 else q + q % 2

/-- The magnitude nearest to a quotient, a half way going to the even mantissa.  There is none
when the quotient rounds to `2 ^ 1024` or beyond. -/
def nearest? (num den : Nat) : Option Magnitude :=
  let shift := (num * unit / den).log2 - 52
  let mantissa := roundHalfEven (num * unit) (den * Nat.pow 2 shift)
  if mantissa = Nat.pow 2 53 then ofParts? (Nat.pow 2 52) (shift + 1) else ofParts? mantissa shift

/-- The magnitude nearest to `digits * 10 ^ power`.  Powers far out of range are settled by the
number of digits alone. -/
def ofDecimal? (digits : Nat) (power : Int) : Option Magnitude :=
  if digits = 0 then some zero
  else
    let order := ((Nat.toDigits 10 digits).length : Int) + power
    if 310 < order then none
    else if order < -330 then some zero
    else nearest? (digits * Nat.pow 10 power.toNat) (Nat.pow 10 (-power).toNat)

theorem ofParts?_eq_some {x : Magnitude} : ofParts? x.mantissa x.shift = some x := by
  simp only [ofParts?, x.normal, and_self, dite_true]

end Magnitude

inductive Double where
  | finite (negative : Bool) (magnitude : Magnitude)
  | infinite (negative : Bool)
  | nan (negative : Bool)
  deriving DecidableEq

namespace Double

/-- The double nearest to `digits * 10 ^ power` with a sign; too large a number is infinite. -/
def ofDecimal (negative : Bool) (digits : Nat) (power : Int) : Double :=
  match Magnitude.ofDecimal? digits power with
  | some x => finite negative x
  | none => infinite negative

def ofInt (i : Int) : Double := ofDecimal (i < 0) i.natAbs 0

/-- The integer part of a finite double. -/
def truncate? : Double → Option Int
  | finite negative x =>
    let whole : Int := (x.units / Magnitude.unit : Nat)
    some (if negative then -whole else whole)
  | _ => none

/-- The same number: the two zeros are the same, and so are all NaNs. -/
def same : Double → Double → Bool
  | finite n x, finite n' x' => x = x' && (n = n' || x.mantissa = 0)
  | infinite n, infinite n' => n = n'
  | nan _, nan _ => true
  | _, _ => false

/-! ### Reading -/

open QueryScribe.Text

/-- A power of ten at the end of a number: nothing, or `e` with a signed number. -/
def readPower? : List Char → Option Int
  | [] => some 0
  | c :: r =>
    if c = 'e' ∨ c = 'E' then readSigned? r else none

/-- A number without its sign: digits with at most one point, and a power of ten. -/
def readDecimal? (s : List Char) : Option (Nat × Int) :=
  let (whole, r) := spanDigits s
  let (fraction, r) := match r with
    | '.' :: r => spanDigits r
    | r => ([], r)
  if whole.isEmpty ∧ fraction.isEmpty then none
  else (readPower? r).map fun power =>
    (Nat.ofDigitChars 10 (whole ++ fraction) 0, power - fraction.length)

def read? (s : List Char) : Option Double :=
  let (negative, r) := spanSign s
  let lower := r.map Char.toLower
  if lower = "inf".toList ∨ lower = "infinity".toList then some (infinite negative)
  else if lower = "nan".toList then some (nan negative)
  else (readDecimal? r).map fun (digits, power) => ofDecimal negative digits power

end Double

end QueryScribe
