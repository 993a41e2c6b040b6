/-!
# Integers of 32, 64 and 128 bits

The database has integers of two widths.  An integer that fits a width is the
same number after it has been stored, and every number that comes out of a store
fits.  The powers in the texts of decimals have a third width, and are not stored.
-/

namespace QueryScribe

def fits32 (i : Int) : Bool := -0x80000000 ≤ i && i < 0x80000000

def fits64 (i : Int) : Bool := -0x8000000000000000 ≤ i && i < 0x8000000000000000

def fits128 (i : Int) : Bool :=
  -0x80000000000000000000000000000000 ≤ i && i < 0x80000000000000000000000000000000

def clamp64 (i : Int) : Int :=
  if i < -0x8000000000000000 then -0x8000000000000000
  else if 0x7fffffffffffffff < i then 0x7fffffffffffffff
  else i

theorem fits32_toInt (i : Int32) : fits32 i.toInt = true := by
  have low := i.le_toInt
  have high := i.toInt_lt
  simp only [fits32, Bool.and_eq_true, decide_eq_true_eq]
  omega

theorem fits64_toInt (i : Int64) : fits64 i.toInt = true := by
  have low := i.le_toInt
  have high := i.toInt_lt
  simp only [fits64, Bool.and_eq_true, decide_eq_true_eq]
  omega

theorem toInt_ofInt_of_fits32 {i : Int} (h : fits32 i = true) : (Int32.ofInt i).toInt = i := by
  simp only [fits32, Bool.and_eq_true, decide_eq_true_eq] at h
  rw [Int32.toInt_ofInt_of_le] <;> omega

theorem toInt_ofInt_of_fits64 {i : Int} (h : fits64 i = true) : (Int64.ofInt i).toInt = i := by
  simp only [fits64, Bool.and_eq_true, decide_eq_true_eq] at h
  rw [Int64.toInt_ofInt_of_le] <;> omega

end QueryScribe
