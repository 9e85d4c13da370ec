import UpdateFeed.Json.Basic
import UpdateFeed.Text.Position

/-!
# Reading JSON documents

A reader takes the rest of a text and gives a value and the new rest, or a failure.  A failure
names its fault and its place: a rest of the text and a number of bytes past the start of that
rest.  The position in a message counts those bytes as well, but never more than the text has.

A document may nest arrays and objects 127 deep.  The items of an array and the members of an
object are read in a loop whose bound is the length of the text, since every turn uses up at
least one character.

## §1 Faults
-/

namespace UpdateFeed.Json

/-- What is wrong with a text. -/
inductive Fault where
  | endInValue
  | endInString
  | endInArray
  | endInObject
  | noValue
  | noWord
  | noColon
  | noCommaOrBracket
  | noCommaOrBrace
  | keyNotText
  | trailingComma
  | trailingText
  | badNumber
  | numberOutOfRange
  | badEscape
  | loneSurrogate
  | halfSurrogatePair
  | controlCharacter
  | tooDeep
  deriving DecidableEq, Repr

/-- The wording of a fault. -/
def Fault.message : Fault → String
  | .endInValue => "EOF while parsing a value"
  | .endInString => "EOF while parsing a string"
  | .endInArray => "EOF while parsing a list"
  | .endInObject => "EOF while parsing an object"
  | .noValue => "expected value"
  | .noWord => "expected ident"
  | .noColon => "expected `:`"
  | .noCommaOrBracket => "expected `,` or `]`"
  | .noCommaOrBrace => "expected `,` or `\x7d`"
  | .keyNotText => "key must be a string"
  | .trailingComma => "trailing comma"
  | .trailingText => "trailing characters"
  | .badNumber => "invalid number"
  | .numberOutOfRange => "number out of range"
  | .badEscape => "invalid escape"
  | .loneSurrogate => "lone leading surrogate in hex escape"
  | .halfSurrogatePair => "unexpected end of hex escape"
  | .controlCharacter => "control character (\\u0000-\\u001F) found while parsing a string"
  | .tooDeep => "recursion limit exceeded"

/-- A fault and its place: `past` bytes after the start of `rest`. -/
structure Failure where
  fault : Fault
  rest : List Char
  past : Nat
  deriving DecidableEq, Repr

namespace Failure

/-- The number of bytes of `text` up to the failure. -/
def offset (failure : Failure) (text : List Char) : Nat :=
  min (Text.byteCount text)
    (Text.byteCount text - Text.byteCount failure.rest + failure.past)

end Failure

/-- A fault just before `rest`. -/
def failBefore {α : Type} (fault : Fault) (rest : List Char) : Except Failure α :=
  .error ⟨fault, rest, 0⟩

/-- A fault just after the first byte of `rest`. -/
def failAfter {α : Type} (fault : Fault) (rest : List Char) : Except Failure α :=
  .error ⟨fault, rest, 1⟩

/-- What reads a value at the start of a text and gives the rest. -/
abbrev Reader (α : Type) := List Char → Except Failure (α × List Char)

/-! ## §2 Blanks and words -/

/-- Blanks between the parts of a document. -/
def isBlank (c : Char) : Bool :=
  c = ' ' || c = '\n' || c = '\t' || c = '\r'

/-- A text without the blanks at its start. -/
def skipBlanks (text : List Char) : List Char :=
  text.dropWhile isBlank

/-- The rest of a word whose first letter is read. -/
def readWord : List Char → Reader Unit
  | [], text => .ok ((), text)
  | _ :: _, [] => failBefore .endInValue []
  | letter :: letters, c :: text =>
    if c = letter then readWord letters text else failAfter .noWord (c :: text)

/-! ## §3 Strings -/

/-- The value of a hexadecimal digit of either case. -/
def hexValue? (c : Char) : Option Nat :=
  if '0' ≤ c ∧ c ≤ '9' then some (c.toNat - '0'.toNat)
  else if 'a' ≤ c ∧ c ≤ 'f' then some (c.toNat - 'a'.toNat + 10)
  else if 'A' ≤ c ∧ c ≤ 'F' then some (c.toNat - 'A'.toNat + 10)
  else none

/-- The value of four hexadecimal digits. -/
def hexUnit? (a b c d : Char) : Option Nat := do
  return (((← hexValue? a) * 16 + (← hexValue? b)) * 16 + (← hexValue? c)) * 16 + (← hexValue? d)

/-- Whether a 16-bit unit is the first half of a surrogate pair. -/
def isHighSurrogate (unit : Nat) : Bool := 0xD800 ≤ unit && unit ≤ 0xDBFF

/-- Whether a 16-bit unit is the second half of a surrogate pair. -/
def isLowSurrogate (unit : Nat) : Bool := 0xDC00 ≤ unit && unit ≤ 0xDFFF

/-- The character of a surrogate pair. -/
def pairChar (high low : Nat) : Char :=
  Char.ofNat (0x10000 + (high - 0xD800) * 0x400 + (low - 0xDC00))

/-- The character of an escape of one letter. -/
def escapedChar? : Char → Option Char
  | '"' => some '"'
  | '\\' => some '\\'
  | '/' => some '/'
  | 'b' => some '\x08'
  | 'f' => some '\x0c'
  | 'n' => some '\n'
  | 'r' => some '\r'
  | 't' => some '\t'
  | _ => none

/-- The failure of an escape that lacks its four hexadecimal digits. -/
def failUnit {α : Type} (rest : List Char) : Except Failure α :=
  if Text.byteCount rest < 4 then failBefore .endInString []
  else .error ⟨.badEscape, rest, 4⟩

/-- The failure of a first half of a surrogate pair that no second escape follows. -/
def failPair {α : Type} : List Char → Except Failure α
  | [] => failBefore .endInString []
  | ['\\'] => failBefore .endInString []
  | '\\' :: rest => failAfter .halfSurrogatePair rest
  | rest => failAfter .halfSurrogatePair rest

/-- Puts a character in front of a text that is read. -/
def consText (c : Char) (result : Except Failure (List Char × List Char)) :
    Except Failure (List Char × List Char) :=
  result.map fun (text, rest) => (c :: text, rest)

/-- The characters up to the closing quote, which is used up as well. -/
def readText : Reader (List Char)
  | [] => failBefore .endInString []
  | '"' :: rest => .ok ([], rest)
  | '\\' :: 'u' :: a :: b :: c :: d :: rest =>
    match hexUnit? a b c d with
    | none => failUnit (a :: b :: c :: d :: rest)
    | some unit =>
      if isLowSurrogate unit then failBefore .loneSurrogate rest
      else if isHighSurrogate unit then
        -- the second half has to follow as an escape of its own
        match rest with
        | '\\' :: 'u' :: e :: f :: g :: h :: rest =>
          match hexUnit? e f g h with
          | none => failUnit (e :: f :: g :: h :: rest)
          | some low =>
            if isLowSurrogate low then consText (pairChar unit low) (readText rest)
            else failBefore .loneSurrogate rest
        | '\\' :: 'u' :: rest => failUnit rest
        | rest => failPair rest
      else consText (Char.ofNat unit) (readText rest)
  | '\\' :: 'u' :: rest => failUnit rest
  | ['\\'] => failBefore .endInString []
  | '\\' :: c :: rest =>
    match escapedChar? c with
    | some escaped => consText escaped (readText rest)
    | none => failAfter .badEscape (c :: rest)
  | c :: rest =>
    if c.toNat < 0x20 then failAfter .controlCharacter (c :: rest)
    else consText c (readText rest)

/-! ## §4 Numbers -/

/-- The value of a decimal digit. -/
def digitValue (c : Char) : Nat := c.toNat - '0'.toNat

/-- The digits at the start of a text, and the rest. -/
def readDigits (text : List Char) : List Nat × List Char :=
  ((text.takeWhile Char.isDigit).map digitValue, text.dropWhile Char.isDigit)

/-- The digits before the point: a zero alone, or digits that start with another one. -/
def readWhole : Reader (List Nat)
  | [] => failBefore .endInValue []
  | '0' :: rest =>
    -- no digit may stand behind a zero at the start
    match rest with
    | c :: _ => if c.isDigit then failAfter .badNumber rest else .ok ([0], rest)
    | [] => .ok ([0], [])
  | c :: rest =>
    if c.isDigit then .ok (readDigits (c :: rest)) else failAfter .badNumber (c :: rest)

/-- The digits after a point, if there is a point. -/
def readFraction : Reader (Option (List Nat))
  | '.' :: rest =>
    match readDigits rest with
    | ([], []) => failBefore .endInValue []
    | ([], rest) => failAfter .badNumber rest
    | (digits, rest) => .ok (some digits, rest)
  | rest => .ok (none, rest)

/-- The sign of an exponent, plus if there is none. -/
def readSign : List Char → Bool × List Char
  | '+' :: rest => (false, rest)
  | '-' :: rest => (true, rest)
  | rest => (false, rest)

/-- Whether the exponent is negative, its digits, and the text from its digits on. -/
abbrev ExponentPart := Option (Bool × List Nat) × List Char

/-- The exponent, if there is one. -/
def readExponentPart : Reader ExponentPart
  | [] => .ok ((none, []), [])
  | c :: rest =>
    if c = 'e' ∨ c = 'E' then
      let (negative, digitsText) := readSign rest
      match readDigits digitsText with
      | ([], []) => failBefore .endInValue []
      | ([], rest) => failAfter .badNumber rest
      | (digits, rest) => .ok ((some (negative, digits), digitsText), rest)
    else .ok ((none, []), c :: rest)

/-- A number whose sign is read. -/
def readNumber (negative : Bool) (text : List Char) : Except Failure (Number × List Char) := do
  let (whole, rest) ← readWhole text
  let (fraction?, rest) ← readFraction rest
  let ((exponent?, exponentText), rest) ← readExponentPart rest
  match NumberLiteral.value ⟨negative, whole, fraction?, exponent?⟩ with
  | .ok value => .ok (value, rest)
  | .error .atEnd => failBefore .numberOutOfRange rest
  | .error (.inExponent digits) => failBefore .numberOutOfRange (exponentText.drop digits)

/-! ## §5 Values -/

/-- The items of an array behind its bracket, with a bound on their number.  `first` says that no
item is read yet. -/
def readItems (readItem : Reader Json) : Nat → Bool → Reader (List Json)
  | 0, _, _ => failBefore .endInArray []
  | bound + 1, first, text =>
    match skipBlanks text with
    | [] => failBefore .endInArray []
    | ']' :: rest => .ok ([], rest)
    | c :: rest => do
      let start ←
        if first then pure (c :: rest)
        else if c = ',' then pure (skipBlanks rest)
        else failAfter .noCommaOrBracket (c :: rest)
      -- an item has to follow a comma
      match start with
      | [] => failBefore .endInValue []
      | ']' :: _ => failAfter .trailingComma start
      | _ =>
        let (item, rest) ← readItem start
        let (items, rest) ← readItems readItem bound false rest
        return (item :: items, rest)

/-- The colon behind a key. -/
def readColon (text : List Char) : Except Failure (Unit × List Char) :=
  match skipBlanks text with
  | [] => failBefore .endInObject []
  | ':' :: rest => .ok ((), rest)
  | rest => failAfter .noColon rest

/-- The members of an object behind its brace, with a bound on their number.  A repeated key keeps
its first place and takes its last value. -/
def readMembers (readValue : Reader Json) : Nat → Bool → Members → Reader Members
  | 0, _, _, _ => failBefore .endInObject []
  | bound + 1, first, members, text =>
    match skipBlanks text with
    | [] => failBefore .endInObject []
    | '\x7d' :: rest => .ok (members, rest)
    | c :: rest => do
      let start ←
        if first then pure (c :: rest)
        else if c = ',' then pure (skipBlanks rest)
        else failAfter .noCommaOrBrace (c :: rest)
      -- a member has to follow a comma
      match start with
      | [] => failBefore .endInValue []
      | '"' :: rest =>
        let (key, rest) ← readText rest
        let ((), rest) ← readColon rest
        let (value, rest) ← readValue rest
        readMembers readValue bound false (assign (String.ofList key) value members) rest
      | '\x7d' :: _ => failAfter .trailingComma start
      | _ => failAfter .keyNotText start

/-- A value that may nest `depth` levels of arrays and objects. -/
def readValue : Nat → Reader Json
  | depth, text =>
    match skipBlanks text with
    | [] => failBefore .endInValue []
    | 'n' :: rest => (readWord ['u', 'l', 'l'] rest).map fun (_, rest) => (.null, rest)
    | 't' :: rest => (readWord ['r', 'u', 'e'] rest).map fun (_, rest) => (.boolean true, rest)
    | 'f' :: rest =>
      (readWord ['a', 'l', 's', 'e'] rest).map fun (_, rest) => (.boolean false, rest)
    | '"' :: rest => (readText rest).map fun (text, rest) => (.string (String.ofList text), rest)
    | '-' :: rest => (readNumber true rest).map fun (value, rest) => (.number value, rest)
    | '[' :: rest =>
      match depth with
      | 0 => failAfter .tooDeep ('[' :: rest)
      | depth + 1 =>
        (readItems (readValue depth) (rest.length + 1) true rest).map
          fun (items, rest) => (.array items, rest)
    | '\x7b' :: rest =>
      match depth with
      | 0 => failAfter .tooDeep ('\x7b' :: rest)
      | depth + 1 =>
        (readMembers (readValue depth) (rest.length + 1) true [] rest).map
          fun (members, rest) => (.object members, rest)
    | c :: rest =>
      if c.isDigit then
        (readNumber false (c :: rest)).map fun (value, rest) => (.number value, rest)
      else failAfter .noValue (c :: rest)

/-! ## §6 Documents -/

/-- How deep arrays and objects may nest. -/
def depthLimit : Nat := 127

/-- Reads a whole text as one value. -/
def read (text : List Char) : Except Failure Json := do
  let (value, rest) ← readValue depthLimit text
  match skipBlanks rest with
  | [] => .ok value
  | rest => failAfter .trailingText rest

/-- A failure in words, with its line and column. -/
def Failure.message (failure : Failure) (text : List Char) : String :=
  let position := Text.Position.ofOffset text (failure.offset text)
  failure.fault.message ++ " at line " ++ toString position.line
    ++ " column " ++ toString position.column

/-- Reads a document; a failure is given in words. -/
def parse (content : String) : Except String Json :=
  (read content.toList).mapError (·.message content.toList)

end UpdateFeed.Json
