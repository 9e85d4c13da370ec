import UpdateFeed.Json.Basic

/-!
# Printing JSON documents

The layout of a document: two blanks of indentation a level, a line for each item and member, and
`[]` and `{}` where there are none.  Text keeps its characters; only quotes, backslashes and
control characters are escaped.
-/

namespace UpdateFeed.Json

/-! ## §1 Text -/

/-- A hexadecimal digit in lower case. -/
def hexDigit (value : Nat) : Char := Nat.digitChar value

/-- A character of a quoted text. -/
def escape (c : Char) : List Char :=
  if c = '"' then ['\\', '"']
  else if c = '\\' then ['\\', '\\']
  else if c = '\x08' then ['\\', 'b']
  else if c = '\x0c' then ['\\', 'f']
  else if c = '\n' then ['\\', 'n']
  else if c = '\r' then ['\\', 'r']
  else if c = '\t' then ['\\', 't']
  else if c.toNat < 0x20 then
    ['\\', 'u', '0', '0', hexDigit (c.toNat / 16), hexDigit (c.toNat % 16)]
  else [c]

/-- A text in quotes. -/
def quoted (text : String) : List Char :=
  '"' :: text.toList.flatMap escape ++ ['"']

/-! ## §2 Layout -/

/-- A line break and the indentation of a level. -/
def lineBreak (level : Nat) : List Char :=
  '\n' :: List.replicate (2 * level) ' '

mutual

/-- The text of a value that stands at a level of indentation. -/
def chars (level : Nat) : Json → List Char
  | .null => ['n', 'u', 'l', 'l']
  | .boolean true => ['t', 'r', 'u', 'e']
  | .boolean false => ['f', 'a', 'l', 's', 'e']
  | .number value => value.chars
  | .string text => quoted text
  | .array [] => ['[', ']']
  | .array (item :: items) =>
    '[' :: lineBreak (level + 1) ++ chars (level + 1) item ++ itemsChars (level + 1) items
      ++ lineBreak level ++ [']']
  | .object [] => ['{', '}']
  | .object ((key, value) :: members) =>
    '{' :: lineBreak (level + 1) ++ quoted key ++ ':' :: ' ' :: chars (level + 1) value
      ++ membersChars (level + 1) members ++ lineBreak level ++ ['}']

/-- The items after the first one, each behind a comma. -/
def itemsChars (level : Nat) : List Json → List Char
  | [] => []
  | item :: items => ',' :: lineBreak level ++ chars level item ++ itemsChars level items

/-- The members after the first one, each behind a comma. -/
def membersChars (level : Nat) : List (String × Json) → List Char
  | [] => []
  | (key, value) :: members =>
    ',' :: lineBreak level ++ quoted key ++ ':' :: ' ' :: chars level value
      ++ membersChars level members

end

/-- The text of a document. -/
def render (value : Json) : String :=
  String.ofList (chars 0 value)

end UpdateFeed.Json
