import Statechart.Json.Basic
import Statechart.Number.Shortest

/-! The compact text of a document: no spaces, members in their order, strings with only the
escapes they need and numbers in their shortest form.
-/

namespace Statechart

namespace Json

/-- Decimals are written with the fewest digits that read back, positionally from 0.00001 up
to 16 digits before the point, otherwise with a signed exponent.
-/
def decimalLayout : DecimalLayout where
  plainFrom := -5
  plainBelow := 16
  mark := 'e'
  plus := true

/-- The decimal digits of an integer, after a minus sign where it needs one. -/
def integerChars : Int → List Char
  | .ofNat n => Nat.toDigits 10 n
  | .negSucc n => '-' :: Nat.toDigits 10 (n + 1)

def numberChars : Number → List Char
  | .integer value => integerChars value
  | .decimal value => decimalLayout.render value

/-- A character inside a string: quotes, backslashes and control characters are escaped. -/
def escaped (c : Char) : List Char :=
  if c = '"' then ['\\', '"']
  else if c = '\\' then ['\\', '\\']
  else if c = '\x08' then ['\\', 'b']
  else if c = '\x0c' then ['\\', 'f']
  else if c = '\n' then ['\\', 'n']
  else if c = '\r' then ['\\', 'r']
  else if c = '\t' then ['\\', 't']
  else if c.toNat < 0x20 then
    ['\\', 'u', '0', '0', Nat.digitChar (c.toNat / 16), Nat.digitChar (c.toNat % 16)]
  else [c]

/-- A string in quotes. -/
def quoted (text : String) : List Char :=
  '"' :: text.toList.flatMap escaped ++ ['"']

mutual
/-- The characters of a document's text. -/
def chars : Json → List Char
  | .null => ['n', 'u', 'l', 'l']
  | .bool true => ['t', 'r', 'u', 'e']
  | .bool false => ['f', 'a', 'l', 's', 'e']
  | .number value => numberChars value
  | .string text => quoted text
  | .array items => '[' :: itemChars items ++ [']']
  | .object members => '\x7b' :: memberChars members ++ ['\x7d']

/-- Items with commas between them. -/
def itemChars : List Json → List Char
  | [] => []
  | [item] => chars item
  | item :: items => chars item ++ ',' :: itemChars items

/-- Members with commas between them. -/
def memberChars : List (String × Json) → List Char
  | [] => []
  | [(key, value)] => quoted key ++ ':' :: chars value
  | (key, value) :: members => quoted key ++ ':' :: chars value ++ ',' :: memberChars members
end

/-- The compact text of a document. -/
def text (value : Json) : String :=
  String.ofList value.chars

end Json

end Statechart
