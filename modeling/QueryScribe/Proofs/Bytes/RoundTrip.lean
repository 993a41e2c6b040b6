import QueryScribe.Bytes
import QueryScribe.Proofs.Text.Digits

/-!
# Bytes read back

Bytes are read back from their hexadecimal digits (`ofHex?_toHex`) and from base 64
(`ofBase64?_toBase64`): a digit of either alphabet is one number, and the numbers of a
group of digits are cut out of the bytes that they make up.
-/

namespace QueryScribe

open QueryScribe.Text

namespace Bytes

/-! ### Hexadecimal -/

theorem hexFixed_two (n : Nat) :
    hexFixed 2 n = [Nat.digitChar (n / 16 % 16), Nat.digitChar (n % 16)] := by
  simp [hexFixed]

theorem ofNat_halves (b : UInt8) :
    UInt8.ofNat (16 * (b.toNat / 16 % 16) + b.toNat % 16) = b := by
  have hlt := b.toNat_lt
  have hvalue : 16 * (b.toNat / 16 % 16) + b.toNat % 16 = b.toNat := by omega
  rw [hvalue, UInt8.ofNat_toNat]

/-- **Bytes are read back from their digits.** -/
theorem ofHex?_toHex (bytes : List UInt8) : ofHex? (toHex bytes) = some bytes := by
  induction bytes with
  | nil => rfl
  | cons b r ih =>
    have hmod (n : Nat) : n % 16 < 16 := Nat.mod_lt _ (by decide)
    rw [toHex_cons, hexFixed_two, List.cons_append, List.singleton_append, ofHex?,
      hexValue?_digitChar _ (hmod _), hexValue?_digitChar _ (hmod _), ih]
    show some (UInt8.ofNat (16 * (b.toNat / 16 % 16) + b.toNat % 16) :: r) = _
    rw [ofNat_halves]

/-! ### Base 64 -/

theorem sextet?_sextetChar : ∀ n < 64, sextet? (sextetChar n) = some n := by decide

theorem sextetChar_ne_pad : ∀ n < 64, sextetChar n ≠ '=' := by decide

theorem ofBase64?_group {a b c d : Nat} (ha : a < 64) (hb : b < 64) (hc : c < 64) (hd : d < 64)
    (r : List Char) :
    ofBase64? (sextetChar a :: sextetChar b :: sextetChar c :: sextetChar d :: r)
      = (ofBase64? r).map fun bytes => UInt8.ofNat (a * 4 + b / 16)
        :: UInt8.ofNat (b % 16 * 16 + c / 4) :: UInt8.ofNat (c % 4 * 64 + d) :: bytes := by
  rw [ofBase64?]
  · simp only [sextet?_sextetChar _ ha, sextet?_sextetChar _ hb, sextet?_sextetChar _ hc,
      sextet?_sextetChar _ hd]
    cases ofBase64? r <;> rfl
  · intro _ hlast _
    exact sextetChar_ne_pad d hd hlast
  · intro hlast _
    exact sextetChar_ne_pad d hd hlast

/-- **Bytes are read back from base 64.** -/
theorem ofBase64?_toBase64 : ∀ bytes : List UInt8, ofBase64? (toBase64 bytes) = some bytes
  | [] => rfl
  | [a] => by
    have ha := a.toNat_lt
    have hvalue : a.toNat / 4 * 4 + a.toNat % 4 * 16 / 16 = a.toNat := by omega
    have hpad : a.toNat % 4 * 16 % 16 = 0 := by omega
    rw [toBase64, ofBase64?, sextet?_sextetChar _ (by omega), sextet?_sextetChar _ (by omega)]
    simp only [Option.bind_eq_bind, Option.bind_some, hpad, if_true, hvalue, UInt8.ofNat_toNat]
  | [a, b] => by
    have ha := a.toNat_lt
    have hb := b.toNat_lt
    have hfirst : a.toNat / 4 * 4 + (a.toNat % 4 * 16 + b.toNat / 16) / 16 = a.toNat := by omega
    have hsecond : (a.toNat % 4 * 16 + b.toNat / 16) % 16 * 16 + b.toNat % 16 * 4 / 4
        = b.toNat := by omega
    have hpad : b.toNat % 16 * 4 % 4 = 0 := by omega
    rw [toBase64, ofBase64?, sextet?_sextetChar _ (by omega), sextet?_sextetChar _ (by omega),
      sextet?_sextetChar _ (by omega)]
    · simp only [Option.bind_eq_bind, Option.bind_some, hpad, if_true, hfirst, hsecond,
        UInt8.ofNat_toNat]
    · exact sextetChar_ne_pad _ (by omega)
  | a :: b :: c :: r => by
    have ha := a.toNat_lt
    have hb := b.toNat_lt
    have hc := c.toNat_lt
    have hfirst : a.toNat / 4 * 4 + (a.toNat % 4 * 16 + b.toNat / 16) / 16 = a.toNat := by omega
    have hsecond : (a.toNat % 4 * 16 + b.toNat / 16) % 16 * 16
        + (b.toNat % 16 * 4 + c.toNat / 64) / 4 = b.toNat := by omega
    have hthird : (b.toNat % 16 * 4 + c.toNat / 64) % 4 * 64 + c.toNat % 64 = c.toNat := by omega
    rw [toBase64, ofBase64?_group (by omega) (by omega) (by omega) (by omega),
      ofBase64?_toBase64 r, hfirst, hsecond, hthird, UInt8.ofNat_toNat, UInt8.ofNat_toNat,
      UInt8.ofNat_toNat]
    rfl

end Bytes

theorem ObjectId.ofHex?_toHex (id : ObjectId) : ObjectId.ofHex? id.toHex = some id := by
  rw [ObjectId.ofHex?, ObjectId.toHex, Bytes.ofHex?_toHex]
  simp [id.length_eq]

end QueryScribe
