import Statechart.Time.Instant
import Statechart.Text.Blank
import Statechart.Number.Numeral

/-! Reading an instant from the text of a date and a time with its offset from universal
time. Blanks may stand before every part; the parts need not be filled up with zeros, and
digits of a fraction beyond the ninth are passed over.
-/

namespace Statechart

namespace Instant

/-- A natural of one digit or more and at most so many, and what follows it. -/
def readNatural? (most : Nat) (text : List Char) : Option (Nat × List Char) :=
  let digits := (Numeral.leadingDigits (text.take most)).1
  if digits = [] then none else some (Numeral.ofDigits digits, text.drop digits.length)

/-- A natural of at most two digits after blanks. -/
def readPart? (text : List Char) : Option (Nat × List Char) :=
  readNatural? 2 (trimStart text)

/-- Passes over a separator after blanks. -/
def readSeparator? (separator : Char) (text : List Char) : Option (List Char) :=
  match trimStart text with
  | c :: rest => if c = separator then some rest else none
  | [] => none

/-- A year has up to four digits, or any number of them after a sign. -/
def readYear? (text : List Char) : Option (Int × List Char) :=
  match trimStart text with
  | '-' :: rest => (readNatural? rest.length rest).map (fun (year, rest) => (-(year : Int), rest))
  | '+' :: rest => (readNatural? rest.length rest).map (fun (year, rest) => ((year : Int), rest))
  | text => (readNatural? 4 text).map (fun (year, rest) => ((year : Int), rest))

def readDate? (text : List Char) : Option (Date × List Char) := do
  let (year, text) ← readYear? text
  let text ← readSeparator? '-' text
  let (month, text) ← readPart? text
  let text ← readSeparator? '-' text
  let (day, text) ← readPart? text
  let date ← Date.of? year month day
  return (date, text)

/-- The nanoseconds of a fraction, if a point follows, else zero. -/
def readFraction? : List Char → Option (Nat × List Char)
  | '.' :: text => do
      let digits := (Numeral.leadingDigits text).1
      let (value, _) ← readNatural? 9 text
      return (value * Nat.pow 10 (9 - min 9 digits.length), text.drop digits.length)
  | text => some (0, text)

/-- Two digits, and what follows them. -/
def readTwoDigits? : List Char → Option (Nat × List Char)
  | a :: b :: rest => do
      let tens ← Numeral.digit? a
      let ones ← Numeral.digit? b
      return (10 * tens + ones, rest)
  | _ => none

/-- An offset of two digits for hours and two for minutes, with colons or blanks between. -/
def readClockOffset? (text : List Char) : Option (Nat × List Char) := do
  let (hours, text) ← readTwoDigits? text
  let (minutes, text) ← readTwoDigits? (text.dropWhile (fun c => c = ':' || isBlank c))
  if minutes < 60 ∧ hours * 60 + minutes < 1440 then
    return (hours * 60 + minutes, text)
  else none

/-- By how many minutes local time is ahead: nothing for the name or the letter of universal
time, else a sign, which may be the typographic minus, and an offset.
-/
def readOffset? : List Char → Option (Int × List Char)
  | '+' :: text =>
      (readClockOffset? text).map (fun (offset, text) => ((offset : Int), text))
  | c :: text =>
      if c = '-' ∨ c = '\u2212' then
        (readClockOffset? text).map (fun (offset, text) => (-(offset : Int), text))
      else if c = 'Z' ∨ c = 'z' then some (0, text)
      else if ((c :: text).take 3).map Char.toUpper = ['U', 'T', 'C'] then some (0, text.drop 2)
      else none
  | [] => none

/-- The day and the time are apart by one `T` or one space. -/
def readDaySeparator? : List Char → Option (List Char)
  | c :: rest => if c = 'T' ∨ c = 't' ∨ c = ' ' then some rest else none
  | [] => none

/-- Reads an instant from a whole text. -/
def ofText? (text : String) : Option Instant := do
  let (date, text) ← readDate? text.toList
  let text ← readDaySeparator? text
  let (hour, text) ← readPart? text
  let text ← readSeparator? ':' text
  let (minute, text) ← readPart? text
  let text ← readSeparator? ':' text
  let (second, text) ← readPart? text
  let (nanosecond, text) ← readFraction? text
  let (offset, text) ← readOffset? (trimStart text)
  if trimStart text = [] ∧ hour < 24 ∧ minute < 60 then
    ofLocal? date (hour * 60 + minute) second nanosecond offset
  else none

end Instant

end Statechart
