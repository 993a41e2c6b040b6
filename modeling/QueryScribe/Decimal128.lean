import QueryScribe.Text.Digits
import QueryScribe.Word

/-!
# Decimal floating-point numbers

A finite decimal is a coefficient of at most 34 digits with a power of ten from
-6176 to 6111 and a sign.  Equal numbers with different powers are different
decimals, since the number of zeros at the end is part of what is written.

The text of a decimal is an optional sign and a name, or digits with an optional
point and power of ten.  The number is never rounded: digits beyond the 34th, or
below the least power of ten, must be zeros, and a power above the greatest one
must find room for zeros after the digits.  Zero alone takes any power of 128 bits,
which is moved into range.
-/

namespace QueryScribe

/-- An absolute value `coefficient * 10 ^ exponent`. -/
structure DecimalAmount where
  coefficient : Nat
  exponent : Int
  inRange : coefficient < Nat.pow 10 34 ∧ -6176 ≤ exponent ∧ exponent ≤ 6111
  deriving DecidableEq

/-- A decimal of 128 bits.  A NaN keeps its sign and its signalling bit, though neither is
written. -/
inductive Decimal128 where
  | finite (negative : Bool) (amount : DecimalAmount)
  | infinite (negative : Bool)
  | nan (negative : Bool) (signalling : Bool)
  deriving DecidableEq

namespace Decimal128

open QueryScribe.Text

/-- Digits with a point so many places from the right. -/
def placePoint (ds : List Char) (places : Nat) : List Char :=
  if places = 0 then ds
  else if places < ds.length then
    ds.take (ds.length - places) ++ '.' :: ds.drop (ds.length - places)
  else '0' :: '.' :: List.replicate (places - ds.length) '0' ++ ds

/-- The text of an amount: plain when it has no power of ten and begins at the sixth place after
the point or before, and else with a point after the first digit and a signed power. -/
def writeAmount (a : DecimalAmount) : List Char :=
  let ds := decimal a.coefficient
  let power := a.exponent + ds.length - 1
  if a.exponent ≤ 0 ∧ -6 ≤ power then placePoint ds (-a.exponent).toNat
  else
    let fraction := ds.drop 1
    ds.take 1 ++ (if fraction.isEmpty then [] else '.' :: fraction)
      ++ 'E' :: (if 0 < power then ['+'] else []) ++ signed power

def write : Decimal128 → List Char
  | finite negative a => if negative then '-' :: writeAmount a else writeAmount a
  | infinite negative => if negative then "-Infinity".toList else "Infinity".toList
  | nan _ _ => "NaN".toList

/-! ### Reading -/

/-- Digits on their way to becoming a coefficient, with a power of ten. -/
structure Draft where
  digits : List Char
  power : Int

namespace Draft

def isZero (d : Draft) : Bool := d.digits = ['0']

/-- Without its last digits, which must be zeros. -/
def dropZeros? (d : Draft) (count : Nat) : Option Draft :=
  let kept := d.digits.length - count
  if (d.digits.drop kept).all (· = '0') then some ⟨d.digits.take kept, d.power + count⟩ else none

/-- Without zeros in front; nothing left is zero. -/
def dropLeading (d : Draft) : Draft :=
  match d.digits.dropWhile (· = '0') with
  | [] => ⟨['0'], d.power⟩
  | ds => ⟨ds, d.power⟩

/-- At most 34 digits. -/
def shorten? (d : Draft) : Option Draft := d.dropZeros? (d.digits.length - 34)

/-- A power of at least -6176. -/
def raise? (d : Draft) : Option Draft :=
  if -6176 ≤ d.power then some d
  else if d.isZero then some ⟨d.digits, -6176⟩
  else
    let missing := (-6176 - d.power).toNat
    if missing ≤ d.digits.length then d.dropZeros? missing else none

/-- A power of at most 6111. -/
def lower? (d : Draft) : Option Draft :=
  if d.power ≤ 6111 then some d
  else if d.isZero then some ⟨d.digits, 6111⟩
  else
    let extra := (d.power - 6111).toNat
    if d.digits.length + extra ≤ 34 then some ⟨d.digits ++ List.replicate extra '0', 6111⟩
    else none

def amount? (d : Draft) : Option DecimalAmount := do
  let coefficient ← readNat? (match d.digits with | '+' :: r => r | r => r)
  if h : coefficient < Nat.pow 10 34 ∧ -6176 ≤ d.power ∧ d.power ≤ 6111 then
    some ⟨coefficient, d.power, h⟩
  else none

end Draft

/-- An integer of 128 bits. -/
def readPower? (s : List Char) : Option Int := do
  let i ← readSigned? s
  if fits128 i then some i else none

/-- The digits and the power of a number, its point taken out.  The power fits 128 bits before
and after. -/
def readDraft? (s : List Char) : Option Draft := do
  let mantissa := s.takeWhile (· ≠ 'e')
  let power ← match s.dropWhile (· ≠ 'e') with
    | [] => some 0
    | _ :: r => readPower? r
  let whole := mantissa.takeWhile (· ≠ '.')
  let fraction := (mantissa.dropWhile (· ≠ '.')).drop 1
  let power := power - fraction.length
  if fits128 power then some ⟨whole ++ fraction, power⟩ else none

def readAmount? (s : List Char) : Option DecimalAmount := do
  let d ← readDraft? s
  let d ← d.dropLeading.shorten?
  let d ← d.raise?
  let d ← d.lower?
  d.amount?

def read? (s : List Char) : Option Decimal128 :=
  let (negative, r) := spanSign s
  let lower := r.map Char.toLower
  if lower = "nan".toList then some (nan negative false)
  else if lower = "snan".toList then some (nan negative true)
  else if lower = "inf".toList ∨ lower = "infinity".toList then some (infinite negative)
  else (readAmount? lower).map (finite negative)

end Decimal128

end QueryScribe
