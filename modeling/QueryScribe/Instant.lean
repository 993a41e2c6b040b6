import QueryScribe.Text.Digits

/-!
# Instants

`Instant.read?` reads a date and time with an offset from universal time, such as
`2024-01-01T00:00:00.5+01:00`, and gives the milliseconds since the start of
1970.  Days are counted from the first day of the year 0 in the Gregorian
calendar.  What is finer than a millisecond is dropped toward 1970.  A leap
second is read as the last nanosecond of its minute, and only at the end of a
month of universal time.
-/

namespace QueryScribe.Instant

open QueryScribe.Text

def isLeap (year : Nat) : Bool := (year % 4 = 0 && year % 100 ≠ 0) || year % 400 = 0

def monthLengths (year : Nat) : List Nat :=
  [31, if isLeap year then 29 else 28, 31, 30, 31, 30, 31, 31, 30, 31, 30, 31]

def daysBeforeYear (year : Nat) : Nat :=
  365 * year + (year + 3) / 4 - (year + 99) / 100 + (year + 399) / 400

def dayNumber? (year month day : Nat) : Option Nat := do
  if month = 0 then none
  let length ← (monthLengths year)[month - 1]?
  if day = 0 ∨ length < day then none
  return daysBeforeYear year + ((monthLengths year).take (month - 1)).foldl (· + ·) 0 + (day - 1)

def epoch : Nat := 719528

/-- Whether a day is the last one of a month, for days in a year or next to it. -/
def endsMonth (year : Nat) (day : Int) : Bool :=
  [year, year + 1].any fun y =>
    (List.range' 1 12).any fun m => ((dayNumber? y m 1).map Int.ofNat) = some (day + 1)

/-- A date and time as it is written, with the offset in minutes. -/
structure Clock where
  year : Nat
  day : Nat
  hour : Nat
  minute : Nat
  second : Nat
  /-- The digits after the point of the second. -/
  fraction : List Char
  offset : Int

namespace Clock

/-- Seconds of universal time since 1970. -/
def seconds (c : Clock) : Int :=
  ((c.day : Int) - epoch) * 86400 + (c.hour * 60 + c.minute - c.offset) * 60 + c.second

/-- Nanoseconds of a list of digits after a point, those past the ninth dropped. -/
def nanoseconds (ds : List Char) : Nat :=
  Nat.ofDigitChars 10 ((ds ++ List.replicate 9 '0').take 9) 0

/-- Milliseconds since 1970, if the clock shows a time that there is. -/
def milliseconds? (c : Clock) : Option Int :=
  if 23 < c.hour ∨ 59 < c.minute ∨ 60 < c.second then none
  else if c.second = 60 then
    let last := c.seconds - 1
    if last % 86400 = 86399 ∧ endsMonth c.year (last / 86400 + epoch) then
      some ((last * 1000000000 + 999999999).tdiv 1000000)
    else none
  else some ((c.seconds * 1000000000 + nanoseconds c.fraction).tdiv 1000000)

end Clock

/-- A number of exactly so many digits, and the rest. -/
def digits? (count : Nat) (s : List Char) : Option (Nat × List Char) := do
  if s.length < count then none
  let n ← readNat? (s.take count)
  return (n, s.drop count)

def after? (c : Char) : List Char → Option (List Char)
  | d :: r => if d = c then some r else none
  | [] => none

def fraction? (s : List Char) : Option (List Char × List Char) :=
  match s with
  | '.' :: r =>
    let (ds, r) := spanDigits r
    if ds.isEmpty then none else some (ds, r)
  | _ => some ([], s)

/-- The offset at the end of a text, in minutes. -/
def offset? (s : List Char) : Option Int :=
  match s with
  | [] => none
  | c :: r =>
    if c = 'Z' ∨ c = 'z' then if r.isEmpty then some 0 else none
    else if c = '+' ∨ c = '-' then do
      let (hours, r) ← digits? 2 r
      let r ← after? ':' r
      let (minutes, r) ← digits? 2 r
      if 23 < hours ∨ 59 < minutes ∨ ¬ r.isEmpty then none
      let size : Int := hours * 60 + minutes
      return if c = '-' then -size else size
    else none

/-- The clock that a text shows.  Any one ASCII character may stand between date and time. -/
def readClock? (s : List Char) : Option Clock := do
  let (year, r) ← digits? 4 s
  let r ← after? '-' r
  let (month, r) ← digits? 2 r
  let r ← after? '-' r
  let (day, r) ← digits? 2 r
  let separator ← r.head?
  if 128 ≤ separator.toNat then none
  let (hour, r) ← digits? 2 r.tail
  let r ← after? ':' r
  let (minute, r) ← digits? 2 r
  let r ← after? ':' r
  let (second, r) ← digits? 2 r
  let (fraction, r) ← fraction? r
  let offset ← offset? r
  let number ← dayNumber? year month day
  return ⟨year, number, hour, minute, second, fraction, offset⟩

/-- Milliseconds since 1970 of a date and time. -/
def read? (s : List Char) : Option Int := (readClock? s).bind Clock.milliseconds?

end QueryScribe.Instant
