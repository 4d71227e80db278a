import Statechart.Time.Date

/-! Instants of universal time, to the nanosecond, and the text they are written as. The
second after 59 is a leap second.
-/

namespace Statechart

/-- An instant: a day, a minute of it, a second of that and a nanosecond of that. -/
structure Instant where
  date : Date
  minute : Nat
  second : Nat
  nanosecond : Nat
  minute_lt : minute < 1440
  second_le : second ≤ 60
  nanosecond_lt : nanosecond < 1000000000
deriving DecidableEq

namespace Instant

/-- Decimal digits with zeros in front up to a width. -/
def padded (width n : Nat) : List Char :=
  let digits := Nat.toDigits 10 n
  List.replicate (width - digits.length) '0' ++ digits

/-- A year of four digits; one that has more or lies before year 0 carries its sign. -/
def yearChars (year : Int) : List Char :=
  if 0 ≤ year ∧ year ≤ 9999 then padded 4 year.natAbs
  else (if year < 0 then '-' else '+') :: padded 4 year.natAbs

/-- A fraction of 3, 6 or 9 digits, the fewest that lose nothing, or none for zero. -/
def fractionChars (nanosecond : Nat) : List Char :=
  if nanosecond = 0 then []
  else if nanosecond % 1000000 = 0 then '.' :: padded 3 (nanosecond / 1000000)
  else if nanosecond % 1000 = 0 then '.' :: padded 6 (nanosecond / 1000)
  else '.' :: padded 9 nanosecond

/-- The text of an instant: its day and its time with a `Z` for universal time. -/
def chars (t : Instant) : List Char :=
  yearChars t.date.year ++ '-' :: padded 2 t.date.month ++ '-' :: padded 2 t.date.day
    ++ 'T' :: padded 2 (t.minute / 60) ++ ':' :: padded 2 (t.minute % 60)
    ++ ':' :: padded 2 t.second ++ fractionChars t.nanosecond ++ ['Z']

def text (t : Instant) : String :=
  String.ofList t.chars

/-- The instant that a local time of a day stands for. The offset is by how many minutes
local time is ahead of universal time, and is less than a day.
-/
def ofLocal? (date : Date) (minute second nanosecond : Nat) (offset : Int) : Option Instant := do
  let shifted : Int := minute - offset
  let date ←
    if shifted < 0 then date.previous?
    else if 1440 ≤ shifted then date.next?
    else some date
  let minute := (shifted % 1440).toNat
  if h : minute < 1440 ∧ second ≤ 60 ∧ nanosecond < 1000000000 then
    some ⟨date, minute, second, nanosecond, h.1, h.2.1, h.2.2⟩
  else none

end Instant

end Statechart
