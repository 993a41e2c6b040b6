/-!
# Digits

Numbers in text: hexadecimal digits of either case are read by `hexValue?`, and
written in lower case, either padded to a fixed width (`hexFixed`) or bare
(`hex`).  `decimal` and `signed` write natural numbers and integers in base ten, and
`readSigned?` reads an integer with an optional sign.
-/

namespace QueryScribe.Text

/-- The value of a hexadecimal digit of either case. -/
def hexValue? (c : Char) : Option Nat :=
  if '0' ≤ c ∧ c ≤ '9' then some (c.toNat - '0'.toNat)
  else if 'a' ≤ c ∧ c ≤ 'f' then some (c.toNat - 'a'.toNat + 10)
  else if 'A' ≤ c ∧ c ≤ 'F' then some (c.toNat - 'A'.toNat + 10)
  else none

/-- The last `width` hexadecimal digits of a number, zeros in front. -/
def hexFixed : Nat → Nat → List Char
  | 0, _ => []
  | width + 1, n => hexFixed width (n / 16) ++ [Nat.digitChar (n % 16)]

def hex (n : Nat) : List Char := Nat.toDigits 16 n

def decimal (n : Nat) : List Char := Nat.toDigits 10 n

/-- An integer in base ten, with a minus sign when it is negative. -/
def signed (i : Int) : List Char :=
  if i < 0 then '-' :: decimal i.natAbs else decimal i.natAbs

/-- The longest run of decimal digits in front, and the rest. -/
def spanDigits (s : List Char) : List Char × List Char :=
  (s.takeWhile Char.isDigit, s.dropWhile Char.isDigit)

/-- Whether a minus sign stands in front, and the rest after a sign. -/
def spanSign : List Char → Bool × List Char
  | '-' :: r => (true, r)
  | '+' :: r => (false, r)
  | r => (false, r)

/-- The number that decimal digits write; there must be at least one, and nothing else. -/
def readNat? (s : List Char) : Option Nat :=
  if s ≠ [] ∧ s.all Char.isDigit then some (Nat.ofDigitChars 10 s 0) else none

def readSigned? (s : List Char) : Option Int :=
  let (negative, r) := spanSign s
  (readNat? r).map fun n => if negative then -(n : Int) else n

theorem isDigit_of_mem_decimal {n : Nat} {c : Char} (h : c ∈ decimal n) : c.isDigit :=
  Nat.isDigit_of_mem_toDigits (b := 10) (n := n) (by decide) (by decide) h

theorem ofDigitChars_decimal (n : Nat) : Nat.ofDigitChars 10 (decimal n) 0 = n :=
  Nat.ofDigitChars_ten_toDigits

end QueryScribe.Text
