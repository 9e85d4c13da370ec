import UpdateFeed.Text.Visible

/-!
# Texts quoted in messages

A text in double quotes.  Quotes and backslashes get a backslash, common controls their letter, and
other characters that are not visible are spelled as `\u{…}` with a hexadecimal number.
-/

namespace UpdateFeed.Text

/-- The code point of a character in braces. -/
def codePoint (c : Char) : List Char :=
  '\\' :: 'u' :: '\x7b' :: Nat.toDigits 16 c.toNat ++ ['\x7d']

/-- A character of a quoted text. -/
def quoteChar (c : Char) : List Char :=
  if c = '"' then ['\\', '"']
  else if c = '\\' then ['\\', '\\']
  else if c = '\x00' then ['\\', '0']
  else if c = '\t' then ['\\', 't']
  else if c = '\n' then ['\\', 'n']
  else if c = '\r' then ['\\', 'r']
  else if isVisible c then [c]
  else codePoint c

/-- A text in double quotes. -/
def quoted (text : String) : String :=
  String.ofList ('"' :: text.toList.flatMap quoteChar ++ ['"'])

end UpdateFeed.Text
