/-!
# Strings, keys and blanks of TOML

Readers for the smallest parts of a configuration text.  A reader takes the rest of a text and gives
what it reads with the new rest, or nothing.

Strings stand in double quotes, with escapes, or in single quotes, without.  Three quotes begin a
string over several lines; it drops a line break directly behind them, and up to two quotes may
stand before the three that end it.
-/

namespace UpdateFeed.Toml

/-- What reads something at the start of a text. -/
abbrev Reader (α : Type) := List Char → Option (α × List Char)

/-! ## §1 Blanks, line ends and comments -/

/-- A blank inside of a line. -/
def isBlank (c : Char) : Bool := c = ' ' || c = '\t'

/-- A text without the blanks at its start. -/
def skipBlanks (text : List Char) : List Char := text.dropWhile isBlank

/-- Whether a character may stand in a comment. -/
def isCommentChar (c : Char) : Bool :=
  c = '\t' || (0x20 ≤ c.toNat && c.toNat ≠ 0x7F)

/-- A line break. -/
def readLineBreak : Reader Unit
  | '\n' :: rest => some ((), rest)
  | '\r' :: '\n' :: rest => some ((), rest)
  | _ => none

/-- A text without the comment at its start. -/
def skipComment : List Char → List Char
  | '#' :: rest => rest.dropWhile isCommentChar
  | rest => rest

/-- The end of a line: blanks and a comment, then a line break or the end of the text. -/
def readLineEnd (text : List Char) : Option (Unit × List Char) :=
  match skipComment (skipBlanks text) with
  | [] => some ((), [])
  | rest => readLineBreak rest

/-- A text without the blanks, comments and line breaks at its start, of at most `bound` lines;
nothing if a comment or a carriage return is not followed by a line break. -/
def skipLines : Nat → List Char → Option (List Char)
  | 0, text => some text
  | bound + 1, text =>
    match skipBlanks text with
    | c :: rest =>
      if c = '#' ∨ c = '\n' ∨ c = '\r' then
        (readLineBreak (skipComment (c :: rest))).bind fun (_, rest) => skipLines bound rest
      else some (c :: rest)
    | [] => some []

/-! ## §2 Strings -/

/-- Puts a character in front of a text that is read. -/
def consText (c : Char) (result : Option (List Char × List Char)) :
    Option (List Char × List Char) :=
  result.map fun (text, rest) => (c :: text, rest)

/-- The value of a hexadecimal digit of either case. -/
def hexValue? (c : Char) : Option Nat :=
  if '0' ≤ c ∧ c ≤ '9' then some (c.toNat - '0'.toNat)
  else if 'a' ≤ c ∧ c ≤ 'f' then some (c.toNat - 'a'.toNat + 10)
  else if 'A' ≤ c ∧ c ≤ 'F' then some (c.toNat - 'A'.toNat + 10)
  else none

/-- The character with a code point in hexadecimal digits, unless it is no character. -/
def codePoint? (digits : List Char) : Option Char := do
  let value ← digits.foldlM (fun value c => (hexValue? c).map (value * 16 + ·)) 0
  if value < 0xD800 ∨ (0xDFFF < value ∧ value ≤ 0x10FFFF) then some (Char.ofNat value) else none

/-- The character of an escape of one letter. -/
def escapedChar? : Char → Option Char
  | 'b' => some '\x08'
  | 'f' => some '\x0c'
  | 'n' => some '\n'
  | 'r' => some '\r'
  | 't' => some '\t'
  | '"' => some '"'
  | '\\' => some '\\'
  | _ => none

/-- Whether a character may stand for itself in double quotes. -/
def isBasicChar (c : Char) : Bool :=
  isCommentChar c && c ≠ '"' && c ≠ '\\'

/-- Whether a character may stand in single quotes. -/
def isLiteralChar (c : Char) : Bool :=
  isCommentChar c && c ≠ '\''

/-- A string in double quotes, from behind the opening quote on. -/
def readBasic : Reader (List Char)
  | [] => none
  | '"' :: rest => some ([], rest)
  | '\\' :: 'u' :: a :: b :: c :: d :: rest =>
    (codePoint? [a, b, c, d]).bind fun ch => consText ch (readBasic rest)
  | '\\' :: 'U' :: a :: b :: c :: d :: e :: f :: g :: h :: rest =>
    (codePoint? [a, b, c, d, e, f, g, h]).bind fun ch => consText ch (readBasic rest)
  | '\\' :: c :: rest => (escapedChar? c).bind fun ch => consText ch (readBasic rest)
  | c :: rest => if isBasicChar c then consText c (readBasic rest) else none

/-- A string in single quotes, from behind the opening quote on. -/
def readLiteral : Reader (List Char)
  | [] => none
  | '\'' :: rest => some ([], rest)
  | c :: rest => if isLiteralChar c then consText c (readLiteral rest) else none

/-- Whether a text goes on with blanks and a line break. -/
def endsLine (text : List Char) : Bool :=
  (readLineBreak (skipBlanks text)).isSome

/-- A string over several lines in double quotes.  A backslash at the end of a line drops the line
break and all blanks and line breaks behind it; `skipping` says that this is going on. -/
def readLongBasic (skipping : Bool) : Reader (List Char)
  | [] => none
  -- up to two quotes belong to the string before the three that end it
  | '"' :: '"' :: '"' :: '"' :: '"' :: rest => some (['"', '"'], rest)
  | '"' :: '"' :: '"' :: '"' :: rest => some (['"'], rest)
  | '"' :: '"' :: '"' :: rest => some ([], rest)
  | '"' :: rest => consText '"' (readLongBasic false rest)
  | '\r' :: '\n' :: rest =>
    if skipping then readLongBasic true rest else consText '\n' (readLongBasic false rest)
  | '\\' :: 'u' :: a :: b :: c :: d :: rest =>
    (codePoint? [a, b, c, d]).bind fun ch => consText ch (readLongBasic false rest)
  | '\\' :: 'U' :: a :: b :: c :: d :: e :: f :: g :: h :: rest =>
    (codePoint? [a, b, c, d, e, f, g, h]).bind fun ch => consText ch (readLongBasic false rest)
  | '\\' :: c :: rest =>
    if endsLine (c :: rest) then readLongBasic true rest
    else (escapedChar? c).bind fun ch => consText ch (readLongBasic false rest)
  | c :: rest =>
    if skipping && (isBlank c || c = '\n') then readLongBasic true rest
    else if c = '\n' || isBasicChar c then consText c (readLongBasic false rest)
    else none

/-- A string over several lines in single quotes. -/
def readLongLiteral : Reader (List Char)
  | [] => none
  | '\'' :: '\'' :: '\'' :: '\'' :: '\'' :: rest => some (['\'', '\''], rest)
  | '\'' :: '\'' :: '\'' :: '\'' :: rest => some (['\''], rest)
  | '\'' :: '\'' :: '\'' :: rest => some ([], rest)
  | '\'' :: rest => consText '\'' (readLongLiteral rest)
  | '\r' :: '\n' :: rest => consText '\n' (readLongLiteral rest)
  | c :: rest =>
    if c = '\n' || isLiteralChar c then consText c (readLongLiteral rest) else none

/-- A text without the line break at its start. -/
def skipLineBreak (text : List Char) : List Char :=
  match readLineBreak text with
  | some (_, rest) => rest
  | none => text

/-- A string of any of the four kinds. -/
def readString : Reader (List Char)
  | '"' :: '"' :: '"' :: rest => readLongBasic false (skipLineBreak rest)
  | '"' :: rest => readBasic rest
  | '\'' :: '\'' :: '\'' :: rest => readLongLiteral (skipLineBreak rest)
  | '\'' :: rest => readLiteral rest
  | _ => none

/-! ## §3 Keys -/

/-- Whether a character may stand in a key without quotes. -/
def isKeyChar (c : Char) : Bool :=
  c.isAlphanum || c = '_' || c = '-'

/-- A key: a string on one line, or letters, digits, underscores and dashes. -/
def readSimpleKey : Reader String
  | '"' :: rest => (readBasic rest).map fun (text, rest) => (String.ofList text, rest)
  | '\'' :: rest => (readLiteral rest).map fun (text, rest) => (String.ofList text, rest)
  | text =>
    match text.takeWhile isKeyChar with
    | [] => none
    | key => some (String.ofList key, text.dropWhile isKeyChar)

/-- How many parts a dotted key may have. -/
def keyLimit : Nat := 79

/-- The parts of a dotted key, at most `bound` of them, with the blanks around each. -/
def readKeyParts : Nat → Reader (List String)
  | 0, _ => none
  | bound + 1, text => do
    let (key, rest) ← readSimpleKey (skipBlanks text)
    match skipBlanks rest with
    | '.' :: rest =>
      let (keys, rest) ← readKeyParts bound rest
      return (key :: keys, rest)
    | rest => return ([key], rest)

/-- A dotted key. -/
def readKey : Reader (List String) := readKeyParts keyLimit

end UpdateFeed.Toml
