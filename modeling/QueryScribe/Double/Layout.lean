import QueryScribe.Double.Shortest
import QueryScribe.Text.Digits

/-!
# Doubles in text

The shortest digits of a double are laid out with a point, or in powers of ten
when the number is very large or very small.  `FloatStyle` holds the choices in
which two writers differ: where plain notation begins, whether a positive power
has its sign, and which of two equally near decimals is written.  A whole number
keeps one digit after the point, so that it stays a double when it is read.
-/

namespace QueryScribe

open QueryScribe.Text

structure FloatStyle where
  /-- The least power of ten of the leading digit that is written plainly. -/
  leastPlain : Int
  /-- The greatest power of ten of the leading digit that is written plainly. -/
  greatestPlain : Int
  /-- Whether a positive power has a plus sign. -/
  plus : Bool
  /-- Which of two equally near decimals is written. -/
  tie : Tie

namespace FloatStyle

/-- Doubles in JSON: plain from `1e-5` up to `1e+16`. -/
def json : FloatStyle := ⟨-5, 15, true, .even⟩

/-- Doubles in generated code: plain from `1e-4` up to `1e16`. -/
def code : FloatStyle := ⟨-4, 15, false, .up⟩

end FloatStyle

namespace Decimal

/-- The digits with a point, and with zeros where the digits do not reach. -/
def plain (d : Decimal) : List Char :=
  let ds := decimal d.digits
  let point := (ds.length : Int) + d.power
  if 0 ≤ d.power then ds ++ List.replicate d.power.toNat '0' ++ ['.', '0']
  else if 0 < point then ds.take point.toNat ++ '.' :: ds.drop point.toNat
  else '0' :: '.' :: List.replicate (-point).toNat '0' ++ ds

def scientific (plus : Bool) (d : Decimal) : List Char :=
  let ds := decimal d.digits
  let power := (ds.length : Int) + d.power - 1
  let fraction := ds.drop 1
  ds.take 1 ++ (if fraction.isEmpty then [] else '.' :: fraction)
    ++ 'e' :: (if plus ∧ 0 ≤ power then ['+'] else []) ++ signed power

def write (style : FloatStyle) (d : Decimal) : List Char :=
  let power := (d.length : Int) + d.power - 1
  if style.leastPlain ≤ power ∧ power ≤ style.greatestPlain then d.plain
  else d.scientific style.plus

end Decimal

namespace Magnitude

def write (style : FloatStyle) (x : Magnitude) : List Char := (x.shortest style.tie).write style

end Magnitude

namespace Double

def writeFinite (style : FloatStyle) (negative : Bool) (x : Magnitude) : List Char :=
  if negative then '-' :: x.write style else x.write style

end Double

end QueryScribe
