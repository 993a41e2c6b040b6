import QueryScribe.Text.Digits

/-!
# Bytes in text

Two lower-case hexadecimal digits write a byte, and digits of either case are read.  A UUID is
sixteen bytes: 32 digits, or digits in groups of 8, 4, 4, 4 and 12 with hyphens between them;
the grouped form may stand in braces or after `urn:uuid:`, whose letters may be capitals.  In base
64 three bytes are four characters of the standard alphabet.  One or two bytes at the end are padded
with equals signs, and then the bits left over are zero, so each list of bytes has one form.
-/

namespace QueryScribe.Bytes

open QueryScribe.Text

/-! ### Hexadecimal digits -/

def toHex (bytes : List UInt8) : List Char := bytes.flatMap fun b => hexFixed 2 b.toNat

def ofHex? : List Char → Option (List UInt8)
  | [] => some []
  | [_] => none
  | high :: low :: r => do
    let h ← hexValue? high
    let l ← hexValue? low
    let bytes ← ofHex? r
    return UInt8.ofNat (16 * h + l) :: bytes

@[simp] theorem toHex_cons (b : UInt8) (r : List UInt8) :
    toHex (b :: r) = hexFixed 2 b.toNat ++ toHex r := rfl

/-! ### Universally unique identifiers -/

def ungroup? (s : List Char) : Option (List Char) :=
  match s[8]?, s[13]?, s[18]?, s[23]? with
  | some '-', some '-', some '-', some '-' =>
    some (s.take 8 ++ (s.drop 9).take 4 ++ (s.drop 14).take 4 ++ (s.drop 19).take 4 ++ s.drop 24)
  | _, _, _, _ => none

def uuidDigits? (s : List Char) : Option (List Char) :=
  if s.length = 32 then some s
  else if s.length = 36 then ungroup? s
  else if s.length = 38 ∧ s.head? = some '\x7b' ∧ s.getLast? = some '\x7d' then
    ungroup? (s.drop 1).dropLast
  else if s.length = 45 ∧ (s.take 9).map Char.toLower = "urn:uuid:".toList then ungroup? (s.drop 9)
  else none

def ofUuid? (s : List Char) : Option (List UInt8) := (uuidDigits? s).bind ofHex?

/-! ### Base 64 -/

def sextetChar (n : Nat) : Char :=
  if n < 26 then Char.ofNat (n + 'A'.toNat)
  else if n < 52 then Char.ofNat (n - 26 + 'a'.toNat)
  else if n < 62 then Char.ofNat (n - 52 + '0'.toNat)
  else if n = 62 then '+' else '/'

def sextet? (c : Char) : Option Nat :=
  if 'A' ≤ c ∧ c ≤ 'Z' then some (c.toNat - 'A'.toNat)
  else if 'a' ≤ c ∧ c ≤ 'z' then some (c.toNat - 'a'.toNat + 26)
  else if '0' ≤ c ∧ c ≤ '9' then some (c.toNat - '0'.toNat + 52)
  else if c = '+' then some 62
  else if c = '/' then some 63
  else none

def toBase64 : List UInt8 → List Char
  | [] => []
  | [a] => [sextetChar (a.toNat / 4), sextetChar (a.toNat % 4 * 16), '=', '=']
  | [a, b] =>
    [sextetChar (a.toNat / 4), sextetChar (a.toNat % 4 * 16 + b.toNat / 16),
      sextetChar (b.toNat % 16 * 4), '=']
  | a :: b :: c :: r =>
    sextetChar (a.toNat / 4) :: sextetChar (a.toNat % 4 * 16 + b.toNat / 16)
      :: sextetChar (b.toNat % 16 * 4 + c.toNat / 64) :: sextetChar (c.toNat % 64) :: toBase64 r

def ofBase64? : List Char → Option (List UInt8)
  | [] => some []
  | [a, b, '=', '='] => do
    let a ← sextet? a
    let b ← sextet? b
    if b % 16 = 0 then some [UInt8.ofNat (a * 4 + b / 16)] else none
  | [a, b, c, '='] => do
    let a ← sextet? a
    let b ← sextet? b
    let c ← sextet? c
    if c % 4 = 0 then some [UInt8.ofNat (a * 4 + b / 16), UInt8.ofNat (b % 16 * 16 + c / 4)]
    else none
  | a :: b :: c :: d :: r => do
    let a ← sextet? a
    let b ← sextet? b
    let c ← sextet? c
    let d ← sextet? d
    let bytes ← ofBase64? r
    return UInt8.ofNat (a * 4 + b / 16) :: UInt8.ofNat (b % 16 * 16 + c / 4)
      :: UInt8.ofNat (c % 4 * 64 + d) :: bytes
  | _ => none

end QueryScribe.Bytes

namespace QueryScribe

/-! ### Object identifiers -/

/-- Twelve bytes. -/
structure ObjectId where
  bytes : List UInt8
  length_eq : bytes.length = 12
  deriving DecidableEq

namespace ObjectId

def toHex (id : ObjectId) : List Char := Bytes.toHex id.bytes

def ofHex? (s : List Char) : Option ObjectId := do
  let bytes ← Bytes.ofHex? s
  if h : bytes.length = 12 then some ⟨bytes, h⟩ else none

end ObjectId

end QueryScribe
