/-!
# Plain text

A text without what steers a terminal: control characters, and the sequences that begin with an
escape character.  Blanks and line breaks are kept.
-/

namespace UpdateFeed.Text

/-- The escape character, with which sequences begin. -/
def escapeChar : Char := '\x1b'

/-- Tabs, line breaks, form feeds and carriage returns. -/
def isSpacingControl (c : Char) : Bool :=
  c = '\t' || c = '\n' || c = '\x0c' || c = '\r'

/-- Whether a character outside of sequences is kept. -/
def isShown (c : Char) : Bool :=
  isSpacingControl c || (0x20 ≤ c.toNat && c.toNat ≠ 0x7F)

/-- Whether a character ends any sequence without being a part of it. -/
def cancels (c : Char) : Bool := c = '\x18' || c = '\x1a'

/-- Where a text is read. -/
inductive Place where
  | outside
  /-- Behind an escape character. -/
  | escape
  /-- In a sequence that ends with the first character from `last` on. -/
  | sequence (last : Char)
  /-- In a text for the terminal, which some sequences begin; a bell may end it. -/
  | payload (endsWithBell : Bool)
  deriving DecidableEq, Repr

/-- The place behind a character that follows an escape character. -/
def placeBehindEscape (c : Char) : Place :=
  if c = '[' then .sequence '@'
  else if c = ']' then .payload true
  else if c = 'P' || c = 'X' || c = '^' || c = '_' then .payload false
  else if c.toNat < 0x20 || c.toNat = 0x7F then .escape
  else if c < '0' then .sequence '0'
  else .outside

/-- The place behind a character in a sequence. -/
def placeBehind (c : Char) : Place → Place
  | .outside => .outside
  | .escape => placeBehindEscape c
  | .sequence last => if last ≤ c && c ≠ '\x7f' then .outside else .sequence last
  | .payload endsWithBell =>
    if endsWithBell && c = '\x07' then .outside else .payload endsWithBell

/-- Whether a character is kept at a place.  Inside of a sequence, what cannot be a part of it
is kept and ends it. -/
def keeps : Place → Char → Bool
  | .outside, c => isShown c
  | .payload _, c => 0x80 ≤ c.toNat
  | _, c => isSpacingControl c || 0x80 ≤ c.toNat

/-- The characters that are kept of a text from a place on. -/
def plainChars (place : Place) : List Char → List Char
  | [] => []
  | c :: rest =>
    if c = escapeChar then plainChars .escape rest
    else if cancels c then plainChars .outside rest
    else if keeps place c then c :: plainChars .outside rest
    else plainChars (placeBehind c place) rest

/-- A text without controls. -/
def plain (text : String) : String :=
  String.ofList (plainChars .outside text.toList)

end UpdateFeed.Text
