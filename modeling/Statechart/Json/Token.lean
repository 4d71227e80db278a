import Statechart.Number.Numeral

/-! The tokens of a document's text. Scanning decides only what is grammatical: a number
that is out of range and a string with half of a surrogate pair are tokens without a
meaning, so that a reader may still pass over them.
-/

namespace Statechart

namespace Json

inductive Token where
  | openArray
  | closeArray
  | openObject
  | closeObject
  | comma
  | colon
  | null
  | bool (value : Bool)
  /-- A number, or none when it is out of range. -/
  | number (value : Option Number)
  /-- A string, or none when it names half of a surrogate pair. -/
  | string (text : Option String)
deriving DecidableEq, Repr

/-- A unit of a string's text: a character, or the 16-bit code of a numeric escape. -/
inductive StringUnit where
  | char (c : Char)
  | code (value : Nat)
deriving DecidableEq, Repr

namespace StringUnit

def isHighSurrogate (code : Nat) : Bool :=
  0xD800 ≤ code && code < 0xDC00

def isLowSurrogate (code : Nat) : Bool :=
  0xDC00 ≤ code && code < 0xE000

/-- The characters that units stand for: two escapes that make a surrogate pair stand for
one character, and half of a pair stands for none.
-/
def decode? : List StringUnit → Option (List Char)
  | [] => some []
  | .char c :: units => (decode? units).map (c :: ·)
  | .code high :: .code low :: units =>
      if isHighSurrogate high then
        if isLowSurrogate low then
          (decode? units).map
            (Char.ofNat ((high - 0xD800) * 0x400 + (low - 0xDC00) + 0x10000) :: ·)
        else none
      else if isLowSurrogate high then none
      else (decode? (.code low :: units)).map (Char.ofNat high :: ·)
  | .code value :: units =>
      if isHighSurrogate value || isLowSurrogate value then none
      else (decode? units).map (Char.ofNat value :: ·)

end StringUnit

-----------------------------------------------------------------------------------------
-- Characters, strings and tokens
-----------------------------------------------------------------------------------------

namespace Token

/-- Blanks between tokens: space, tab, line feed and carriage return. -/
def isSpace (c : Char) : Bool :=
  c = ' ' || c = '\t' || c = '\n' || c = '\r'

def hexDigit? (c : Char) : Option Nat :=
  if c.isDigit then some (c.toNat - '0'.toNat)
  else if 'a' ≤ c ∧ c ≤ 'f' then some (c.toNat - 'a'.toNat + 10)
  else if 'A' ≤ c ∧ c ≤ 'F' then some (c.toNat - 'A'.toNat + 10)
  else none

/-- The code that four hexadecimal digits write. -/
def hexCode? (a b c d : Char) : Option Nat := do
  let a ← hexDigit? a
  let b ← hexDigit? b
  let c ← hexDigit? c
  let d ← hexDigit? d
  return ((a * 16 + b) * 16 + c) * 16 + d

/-- The character that a one-letter escape stands for. -/
def unescaped? (letter : Char) : Option Char :=
  if letter = '"' ∨ letter = '\\' ∨ letter = '/' then some letter
  else if letter = 'b' then some '\x08'
  else if letter = 'f' then some '\x0c'
  else if letter = 'n' then some '\n'
  else if letter = 'r' then some '\r'
  else if letter = 't' then some '\t'
  else none

/-- The units of a string up to its closing quote, and what follows the quote. Control
characters must be escaped.
-/
def stringUnits? : List Char → Option (List StringUnit × List Char)
  | [] => none
  | '"' :: rest => some ([], rest)
  | '\\' :: 'u' :: a :: b :: c :: d :: rest => do
      let code ← hexCode? a b c d
      let (units, rest) ← stringUnits? rest
      return (.code code :: units, rest)
  | '\\' :: letter :: rest => do
      let c ← unescaped? letter
      let (units, rest) ← stringUnits? rest
      return (.char c :: units, rest)
  | c :: rest =>
      if c.toNat < 0x20 then none
      else do
        let (units, rest) ← stringUnits? rest
        return (.char c :: units, rest)

/-- The characters that numerals are made of. -/
def isNumeralChar (c : Char) : Bool :=
  c.isDigit || c = '-' || c = '+' || c = '.' || c = 'e' || c = 'E'

/-- The first token of a text that begins with one, and what follows it. -/
def first? : List Char → Option (Token × List Char)
  | '[' :: rest => some (.openArray, rest)
  | ']' :: rest => some (.closeArray, rest)
  | '\x7b' :: rest => some (.openObject, rest)
  | '\x7d' :: rest => some (.closeObject, rest)
  | ',' :: rest => some (.comma, rest)
  | ':' :: rest => some (.colon, rest)
  | 'n' :: 'u' :: 'l' :: 'l' :: rest => some (.null, rest)
  | 't' :: 'r' :: 'u' :: 'e' :: rest => some (.bool true, rest)
  | 'f' :: 'a' :: 'l' :: 's' :: 'e' :: rest => some (.bool false, rest)
  | '"' :: rest => do
      let (units, rest) ← stringUnits? rest
      return (.string ((StringUnit.decode? units).map String.ofList), rest)
  | text => do
      let numeral ← Numeral.ofChars? (text.takeWhile isNumeralChar)
      return (.number numeral.number?, text.dropWhile isNumeralChar)

-----------------------------------------------------------------------------------------
-- Every token uses up text
-----------------------------------------------------------------------------------------

theorem stringUnits?_length (text : List Char)
    : ∀ units rest, stringUnits? text = some (units, rest) → rest.length < text.length := by
  fun_induction stringUnits? text with
  | case1 => intro units rest h; simp at h
  | case2 tail =>
      intro units rest h
      simp only [Option.some.injEq, Prod.mk.injEq] at h
      simp [← h.2]
  | case3 a b c d tail ih =>
      intro units rest h
      simp only [Option.bind_eq_bind, Option.bind_eq_some_iff, Option.pure_def,
        Option.some.injEq, Prod.mk.injEq, Prod.exists] at h
      obtain ⟨_, _, inner, remaining, hi, _, rfl⟩ := h
      have := ih inner remaining hi
      simp only [List.length_cons]
      omega
  | case4 letter tail _ ih =>
      intro units rest h
      simp only [Option.bind_eq_bind, Option.bind_eq_some_iff, Option.pure_def,
        Option.some.injEq, Prod.mk.injEq, Prod.exists] at h
      obtain ⟨_, _, inner, remaining, hi, _, rfl⟩ := h
      have := ih inner remaining hi
      simp only [List.length_cons]
      omega
  | case5 => intro units rest h; simp at h
  | case6 c tail _ _ _ _ ih =>
      intro units rest h
      simp only [Option.bind_eq_bind, Option.bind_eq_some_iff, Option.pure_def,
        Option.some.injEq, Prod.mk.injEq, Prod.exists] at h
      obtain ⟨inner, remaining, hi, _, rfl⟩ := h
      have := ih inner remaining hi
      simp only [List.length_cons]
      omega

/-- No numeral is empty. -/
theorem numeral_ofChars?_nil : Numeral.ofChars? [] = none := by
  rfl

/-- Reading a token uses up part of the text. -/
theorem first?_length {text rest : List Char} {token : Token}
    (h : first? text = some (token, rest))
    : rest.length < text.length := by
  unfold first? at h
  split at h
  case h_10 tail =>
    simp only [Option.bind_eq_bind, Option.bind_eq_some_iff, Option.pure_def,
      Option.some.injEq, Prod.mk.injEq, Prod.exists] at h
    obtain ⟨units, remaining, hi, _, rfl⟩ := h
    have := stringUnits?_length tail units remaining hi
    simp only [List.length_cons]
    omega
  case h_11 =>
    simp only [Option.bind_eq_bind, Option.bind_eq_some_iff, Option.pure_def,
      Option.some.injEq, Prod.mk.injEq] at h
    obtain ⟨numeral, hn, _, rfl⟩ := h
    have hs := congrArg List.length
      (List.takeWhile_append_dropWhile (p := isNumeralChar) (l := text))
    have hp : (text.takeWhile isNumeralChar).length ≠ 0 := by
      intro he
      rw [List.length_eq_zero_iff.mp he, numeral_ofChars?_nil] at hn
      simp at hn
    simp only [List.length_append] at hs
    omega
  all_goals
    simp only [Option.some.injEq, Prod.mk.injEq] at h
    obtain ⟨_, rfl⟩ := h
    simp only [List.length_cons]
    omega

/-- The tokens of a whole text, or none when some part of it is no token. -/
def scan? : List Char → Option (List Token)
  | [] => some []
  | c :: text =>
      if isSpace c then scan? text
      else
        match h : first? (c :: text) with
        | none => none
        | some (token, rest) =>
            have := first?_length h
            (scan? rest).map (token :: ·)
termination_by text => text.length
decreasing_by
  all_goals
    simp only [List.length_cons] at *
    omega

end Token

end Json

end Statechart
