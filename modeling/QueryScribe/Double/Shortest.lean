import QueryScribe.Double.Basic

/-!
# The shortest decimal that reads back

A finite double is written with the fewest digits that read back as the same
double.  On the grid of numbers with a given count of digits only the two
neighbours of the value can do, and of two that do the nearer one is taken.  When
both are equally near, the two writers of this library differ: one takes the even
digit and the other the larger, so the choice is a parameter.
-/

namespace QueryScribe

/-- Which of two equally near decimals is written. -/
inductive Tie where
  /-- The one whose last digit is even. -/
  | even
  /-- The larger one. -/
  | up
  deriving DecidableEq

/-- The number `digits * 10 ^ power`. -/
structure Decimal where
  digits : Nat
  power : Int
  deriving DecidableEq

namespace Decimal

def length (d : Decimal) : Nat := (Nat.toDigits 10 d.digits).length

def carry (d : Decimal) : Decimal := if d.digits = 10 then ⟨1, d.power + 1⟩ else d

/-- Whether the decimal reads back as the magnitude. -/
def readsAs (d : Decimal) (x : Magnitude) : Bool :=
  Magnitude.ofDecimal? d.digits d.power = some x

end Decimal

namespace Magnitude

open Decimal

/-- The least `order` with `x < 10 ^ order`, for a magnitude other than zero. -/
def order (x : Magnitude) : Int :=
  ((Nat.toDigits 10 (x.units * Nat.pow 10 400 / unit)).length : Int) - 400

/-- The decimals around a magnitude on the grid of `10 ^ power`: the one below it, the one above
it, and the order of the value and the middle between them. -/
def neighbours (x : Magnitude) (power : Int) : Decimal × Decimal × Ordering :=
  let num := x.units * Nat.pow 10 (-power).toNat
  let den := unit * Nat.pow 10 power.toNat
  (⟨num / den, power⟩, carry ⟨num / den + 1, power⟩, compare (2 * (num % den)) den)

/-- Of two neighbours the one that reads back and is nearer, given on which side of their middle the
value lies. -/
def nearer? (tie : Tie) (x : Magnitude) (below above : Decimal) (side : Ordering) :
    Option Decimal :=
  match below.readsAs x, above.readsAs x with
  | false, false => none
  | true, false => some below
  | false, true => some above
  | true, true =>
    match side with
    | .lt => some below
    | .gt => some above
    | .eq => if tie = .even ∧ below.digits % 2 = 0 then some below else some above

/-- The decimal with `count` digits that reads back and is nearest, if there is one. -/
def onGrid? (tie : Tie) (x : Magnitude) (count : Nat) : Option Decimal :=
  let (below, above, side) := x.neighbours (x.order - count)
  x.nearer? tie below above side

def exact (x : Magnitude) : Decimal := ⟨x.units * Nat.pow 5 1074, -1074⟩

/-- The fewest digits that read back as the magnitude.  Seventeen always do; were there none, the
value would be written out. -/
def shortest (tie : Tie) (x : Magnitude) : Decimal :=
  if x.mantissa = 0 then ⟨0, 0⟩
  else
    match (List.range' 1 17).findSome? (onGrid? tie x) with
    | some d => d
    | none => x.exact

theorem readsAs_of_nearer? {tie : Tie} {x : Magnitude} {below above d : Decimal} {side : Ordering}
    (h : x.nearer? tie below above side = some d) : d.readsAs x = true := by
  unfold nearer? at h
  split at h
  · exact absurd h (by simp)
  · rename_i hb _; rw [← Option.some.inj h]; exact hb
  · rename_i _ ha; rw [← Option.some.inj h]; exact ha
  · rename_i hb ha
    split at h
    · rw [← Option.some.inj h]; exact hb
    · rw [← Option.some.inj h]; exact ha
    · split at h <;> rw [← Option.some.inj h]
      · exact hb
      · exact ha

end Magnitude

end QueryScribe
