import Statechart.Json.Token
import Statechart.Proofs.Json.Exactness

/-! The compact text of a document is scanned into the tokens that write it. Where a number ends
is told by what follows it, so a text is scanned along with what comes after it.
-/

namespace Statechart

namespace Json

-----------------------------------------------------------------------------------------
-- Strings
-----------------------------------------------------------------------------------------

namespace StringUnit

/-- A code that is no half of a surrogate pair stands for its character, whatever follows. -/
theorem decode?_code {value : Nat} (below : value < 0xD800) (units : List StringUnit)
    : decode? (.code value :: units) = (decode? units).map (Char.ofNat value :: ·) := by
  have high : isHighSurrogate value = false := by
    simp only [isHighSurrogate, Bool.and_eq_false_iff, decide_eq_false_iff_not]
    omega
  have low : isLowSurrogate value = false := by
    simp only [isLowSurrogate, Bool.and_eq_false_iff, decide_eq_false_iff_not]
    omega
  cases units with
  | nil => simp [decode?, high, low]
  | cons unit units =>
      cases unit with
      | char c => simp [decode?, high, low]
      | code other => simp [decode?, high, low]

end StringUnit

namespace Token

theorem hexDigit?_digitChar : ∀ digit < 16, hexDigit? (Nat.digitChar digit) = some digit := by
  decide

/-- The last two digits are enough to write a code below 256. -/
theorem hexCode?_digitChar {code : Nat} (small : code < 256)
    : hexCode? '0' '0' (Nat.digitChar (code / 16)) (Nat.digitChar (code % 16)) = some code := by
  have high := hexDigit?_digitChar (code / 16) (by omega)
  have low := hexDigit?_digitChar (code % 16) (by omega)
  have zero : hexDigit? '0' = some 0 := rfl
  simp only [hexCode?, zero, high, low, bind, Option.bind, pure, Option.some.injEq]
  omega

/-- An escape of one letter is one unit. -/
theorem stringUnits?_letter {letter c : Char} (stands : unescaped? letter = some c)
    (rest : List Char)
    : stringUnits? ('\\' :: letter :: rest)
      = (stringUnits? rest).map (fun found => (.char c :: found.1, found.2)) := by
  have named : letter ≠ 'u' := by
    rintro rfl
    cases stands
  rw [stringUnits?]
  · rw [stands]
    cases stringUnits? rest <;> rfl
  · intro _ _ _ _ _ same
    exact absurd same named

/-- A numeric escape is one unit. -/
theorem stringUnits?_code {a b c d : Char} {code : Nat} (stands : hexCode? a b c d = some code)
    (rest : List Char)
    : stringUnits? ('\\' :: 'u' :: a :: b :: c :: d :: rest)
      = (stringUnits? rest).map (fun found => (.code code :: found.1, found.2)) := by
  rw [stringUnits?, stands]
  cases stringUnits? rest <;> rfl

/-- A character that needs no escape is one unit. -/
theorem stringUnits?_plain {c : Char} (quote : c ≠ '"') (backslash : c ≠ '\\')
    (printed : ¬ c.toNat < 0x20) (rest : List Char)
    : stringUnits? (c :: rest)
      = (stringUnits? rest).map (fun found => (.char c :: found.1, found.2)) := by
  rw [stringUnits?]
  · rw [if_neg printed]
    cases stringUnits? rest <;> rfl
  · exact quote
  · exact fun _ _ _ _ _ same => absurd same backslash
  · exact fun _ _ same => absurd same backslash

/-- As it stands in a string, a character is one unit, and one that stands for it. -/
def OneUnit (c : Char) : Prop :=
  ∃ unit,
    (∀ rest,
      stringUnits? (escaped c ++ rest)
        = (stringUnits? rest).map (fun found => (unit :: found.1, found.2)))
    ∧ ∀ units, StringUnit.decode? (unit :: units) = (StringUnit.decode? units).map (c :: ·)

theorem oneUnit_letter (letter : Char) {c : Char} (stands : unescaped? letter = some c)
    (written : escaped c = ['\\', letter])
    : OneUnit c := by
  refine ⟨.char c, fun rest => ?_, fun units => rfl⟩
  rw [written]
  exact stringUnits?_letter stands rest

/-- Every character is one unit; by the escapes, in the order in which they are tried. -/
theorem oneUnit (c : Char) : OneUnit c := by
  rcases Decidable.em (c = '"') with rfl | quote
  · exact oneUnit_letter '"' rfl rfl
  rcases Decidable.em (c = '\\') with rfl | backslash
  · exact oneUnit_letter '\\' rfl rfl
  rcases Decidable.em (c = '\x08') with rfl | backspace
  · exact oneUnit_letter 'b' rfl rfl
  rcases Decidable.em (c = '\x0c') with rfl | feed
  · exact oneUnit_letter 'f' rfl rfl
  rcases Decidable.em (c = '\n') with rfl | line
  · exact oneUnit_letter 'n' rfl rfl
  rcases Decidable.em (c = '\r') with rfl | carriage
  · exact oneUnit_letter 'r' rfl rfl
  rcases Decidable.em (c = '\t') with rfl | tab
  · exact oneUnit_letter 't' rfl rfl
  by_cases control : c.toNat < 0x20
  · refine ⟨.code c.toNat, fun rest => ?_, fun units => ?_⟩
    · simp only [escaped, quote, backslash, backspace, feed, line, carriage, tab, control, if_true,
        if_false]
      exact stringUnits?_code (hexCode?_digitChar (by omega)) rest
    · rw [StringUnit.decode?_code (by omega), Char.ofNat_toNat]
  · refine ⟨.char c, fun rest => ?_, fun units => rfl⟩
    simp only [escaped, quote, backslash, backspace, feed, line, carriage, tab, control, if_false]
    exact stringUnits?_plain quote backslash control rest

/-- The text between the quotes of a string is read up to the closing quote, and stands for the
string; by induction on its characters.
-/
theorem exists_units (text rest : List Char)
    : ∃ units,
        stringUnits? (text.flatMap escaped ++ '"' :: rest) = some (units, rest)
        ∧ StringUnit.decode? units = some text := by
  induction text with
  | nil => exact ⟨[], by rw [List.flatMap_nil, List.nil_append, stringUnits?], rfl⟩
  | cons c text ih =>
      obtain ⟨units, read, stands⟩ := ih
      obtain ⟨unit, reads, means⟩ := oneUnit c
      refine ⟨unit :: units, ?_, ?_⟩
      · rw [List.flatMap_cons, List.append_assoc, reads, read, Option.map_some]
      · rw [means, stands, Option.map_some]

end Token

-----------------------------------------------------------------------------------------
-- The tokens that write a document
-----------------------------------------------------------------------------------------

mutual
/-- The tokens that write a document. -/
def tokens : Json → List Token
  | .null => [.null]
  | .bool value => [.bool value]
  | .number value => [.number (some value)]
  | .string text => [.string (some text)]
  | .array items => .openArray :: itemTokens items ++ [.closeArray]
  | .object members => .openObject :: memberTokens members ++ [.closeObject]

def itemTokens : List Json → List Token
  | [] => []
  | [item] => tokens item
  | item :: items => tokens item ++ .comma :: itemTokens items

def memberTokens : List (String × Json) → List Token
  | [] => []
  | [(key, value)] => .string (some key) :: .colon :: tokens value
  | (key, value) :: members =>
      .string (some key) :: .colon :: tokens value ++ .comma :: memberTokens members
end

namespace Token

/-- A text that does not go on with a character that numerals are made of. -/
def EndsNumeral (rest : List Char) : Prop :=
  ∀ c, rest.head? = some c → isNumeralChar c = false

theorem endsNumeral_nil : EndsNumeral [] :=
  fun _ first => nomatch first

theorem endsNumeral_cons {c : Char} {rest : List Char} (other : isNumeralChar c = false)
    : EndsNumeral (c :: rest) := by
  intro first same
  obtain rfl := Option.some.inj same
  exact other

/-- A text is scanned token by token. -/
theorem scan?_first {c : Char} {text rest : List Char} {token : Token}
    (printed : isSpace c = false) (first : first? (c :: text) = some (token, rest))
    : scan? (c :: text) = (scan? rest).map (token :: ·) := by
  rw [scan?]
  simp only [printed, Bool.false_eq_true, if_false]
  split
  · rename_i none
    simp [first] at none
  · rename_i other others found
    obtain ⟨rfl, rfl⟩ := Prod.mk.inj (Option.some.inj (first.symm.trans found))
    rfl

@[simp]
theorem scan?_openArray (rest : List Char)
    : scan? ('[' :: rest) = (scan? rest).map (.openArray :: ·) :=
  scan?_first rfl rfl

@[simp]
theorem scan?_closeArray (rest : List Char)
    : scan? (']' :: rest) = (scan? rest).map (.closeArray :: ·) :=
  scan?_first rfl rfl

@[simp]
theorem scan?_openObject (rest : List Char)
    : scan? ('\x7b' :: rest) = (scan? rest).map (.openObject :: ·) :=
  scan?_first rfl rfl

@[simp]
theorem scan?_closeObject (rest : List Char)
    : scan? ('\x7d' :: rest) = (scan? rest).map (.closeObject :: ·) :=
  scan?_first rfl rfl

@[simp]
theorem scan?_comma (rest : List Char)
    : scan? (',' :: rest) = (scan? rest).map (.comma :: ·) :=
  scan?_first rfl rfl

@[simp]
theorem scan?_colon (rest : List Char)
    : scan? (':' :: rest) = (scan? rest).map (.colon :: ·) :=
  scan?_first rfl rfl

theorem scan?_quoted (text : String) (rest : List Char)
    : scan? (quoted text ++ rest) = (scan? rest).map (.string (some text) :: ·) := by
  obtain ⟨units, read, stands⟩ := exists_units text.toList rest
  have first
      : first? ('"' :: (text.toList.flatMap escaped ++ '"' :: rest))
        = some (.string (some text), rest) := by
    rw [first?]
    simp only [read, stands, bind, Option.bind, pure, Option.map, String.ofList_toList]
  simpa [quoted] using scan?_first rfl first

/-- What does not begin another token is a numeral as far as its characters go. -/
theorem first?_numeral {c : Char} {text : List Char}
    (begins : c.isDigit = true ∨ c = '-')
    : first? (c :: text)
      = (Numeral.ofChars? ((c :: text).takeWhile isNumeralChar)).map
          (fun numeral => (.number numeral.number?, (c :: text).dropWhile isNumeralChar)) := by
  unfold first?
  split
  case h_11 =>
    cases Numeral.ofChars? ((c :: text).takeWhile isNumeralChar) <;> rfl
  all_goals
    rename_i shape
    obtain ⟨rfl, _⟩ := List.cons.inj shape
    simp at begins

/-- The text of an integer begins like a numeral, with a digit or a minus sign. -/
theorem integerChars_cons (value : Int)
    : ∃ c text, integerChars value = c :: text ∧ (c.isDigit = true ∨ c = '-') := by
  cases value with
  | ofNat n =>
      obtain ⟨c, text, shape⟩ :=
        List.exists_cons_of_ne_nil (l := Nat.toDigits 10 n) Nat.toDigits_ne_nil
      exact ⟨c, text, shape, .inl (Numeral.isDigit_toDigits (shape ▸ List.mem_cons_self))⟩
  | negSucc n => exact ⟨'-', _, rfl, .inr rfl⟩

theorem isNumeralChar_integerChars {value : Int} {c : Char} (member : c ∈ integerChars value)
    : isNumeralChar c = true := by
  have digit {n : Nat} (member : c ∈ Nat.toDigits 10 n) : isNumeralChar c = true := by
    simp [isNumeralChar, Numeral.isDigit_toDigits member]
  cases value with
  | ofNat n => exact digit member
  | negSucc n =>
      rcases List.mem_cons.mp member with rfl | member
      · rfl
      · exact digit member

theorem scan?_integer {value : Int} (fits : Number.Fits64 value) {rest : List Char}
    (ends : EndsNumeral rest)
    : scan? (integerChars value ++ rest)
      = (scan? rest).map (.number (some (.integer value)) :: ·) := by
  obtain ⟨numeral, read, stands⟩ := Number.ofChars?_integerChars fits
  obtain ⟨c, text, shape, begins⟩ := integerChars_cons value
  have taken : (integerChars value ++ rest).takeWhile isNumeralChar = integerChars value := by
    rw [List.takeWhile_append_of_pos (fun c => isNumeralChar_integerChars)]
    cases rest with
    | nil => simp
    | cons c rest => simp [ends c rfl]
  have left : (integerChars value ++ rest).dropWhile isNumeralChar = rest := by
    rw [List.dropWhile_append_of_pos (fun c => isNumeralChar_integerChars)]
    cases rest with
    | nil => simp
    | cons c rest => simp [ends c rfl]
  have printed : isSpace c = false := by
    rcases begins with isDigit | rfl
    · simp only [isSpace, Bool.or_eq_false_iff, decide_eq_false_iff_not]
      refine ⟨⟨⟨?_, ?_⟩, ?_⟩, ?_⟩ <;> rintro rfl <;> simp at isDigit
    · rfl
  have first
      : first? (integerChars value ++ rest) = some (.number (some (.integer value)), rest) := by
    rw [shape, List.cons_append, first?_numeral begins, ← List.cons_append, ← shape, taken, left,
      read, Option.map_some, stands]
  rw [shape, List.cons_append] at first ⊢
  exact scan?_first printed first

-----------------------------------------------------------------------------------------
-- Whole documents
-----------------------------------------------------------------------------------------

/-- The text of a document is scanned into its tokens, whatever comes after it. -/
def Scans (value : Json) : Prop :=
  ∀ rest, EndsNumeral rest → scan? (value.chars ++ rest) = (scan? rest).map (value.tokens ++ ·)

/-- So are items between commas, by induction on them. -/
theorem scan?_items {items : List Json} (all : ∀ item ∈ items, Scans item) {rest : List Char}
    (ends : EndsNumeral rest)
    : scan? (itemChars items ++ rest) = (scan? rest).map (itemTokens items ++ ·) := by
  induction items with
  | nil => simp [itemChars, itemTokens]
  | cons item items ih =>
      have scans := all item List.mem_cons_self
      cases items with
      | nil => exact scans rest ends
      | cons next items =>
          have others := ih (fun other member => all other (List.mem_cons_of_mem _ member))
          simp only [itemChars, itemTokens, List.append_assoc, List.cons_append]
          -- The comma ends the item even if it is a number.
          rw [scans _ (endsNumeral_cons rfl), scan?_comma, others]
          simp only [Option.map_map]
          rfl

theorem scan?_members {members : List (String × Json)}
    (all : ∀ member ∈ members, Scans member.2) {rest : List Char} (ends : EndsNumeral rest)
    : scan? (memberChars members ++ rest) = (scan? rest).map (memberTokens members ++ ·) := by
  induction members with
  | nil => simp [memberChars, memberTokens]
  | cons member members ih =>
      obtain ⟨key, value⟩ := member
      have scans : Scans value := all (key, value) List.mem_cons_self
      cases members with
      | nil =>
          simp only [memberChars, memberTokens, List.append_assoc, List.cons_append]
          rw [scan?_quoted, scan?_colon, scans rest ends]
          simp only [Option.map_map]
          rfl
      | cons next members =>
          have others := ih (fun other member => all other (List.mem_cons_of_mem _ member))
          simp only [memberChars, memberTokens, List.append_assoc, List.cons_append]
          rw [scan?_quoted, scan?_colon, scans _ (endsNumeral_cons rfl), scan?_comma, others]
          simp only [Option.map_map]
          rfl

/-- Every exact document is scanned into its tokens, by induction on it. -/
theorem scans_of_exact {value : Json} (exact : value.Exact) : Scans value := by
  induction exact with
  | null => exact fun rest _ => scan?_first rfl rfl
  | bool value =>
      cases value with
      | false => exact fun rest _ => scan?_first rfl rfl
      | true => exact fun rest _ => scan?_first rfl rfl
  | number fits => exact fun rest ends => scan?_integer fits ends
  | string text => exact fun rest _ => scan?_quoted text rest
  | array _ ih =>
      intro rest _
      simp only [chars, tokens, List.cons_append, List.append_assoc, List.nil_append]
      rw [scan?_openArray, scan?_items ih (endsNumeral_cons rfl), scan?_closeArray]
      simp only [Option.map_map]
      rfl
  | object _ _ ih =>
      intro rest _
      simp only [chars, tokens, List.cons_append, List.append_assoc, List.nil_append]
      rw [scan?_openObject, scan?_members ih (endsNumeral_cons rfl), scan?_closeObject]
      simp only [Option.map_map]
      rfl

theorem scan?_chars {value : Json} (exact : value.Exact)
    : scan? value.chars = some value.tokens := by
  have whole := scans_of_exact exact [] endsNumeral_nil
  simpa [scan?] using whole

end Token

end Json

end Statechart
