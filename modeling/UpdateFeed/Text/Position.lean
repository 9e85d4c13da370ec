/-!
# Positions in a text

A place in a text is given by the number of bytes before it.  Its line counts the line breaks
before it, from one, and its column the bytes since the last of them.
-/

namespace UpdateFeed.Text

/-- The number of bytes of a text in UTF-8. -/
def byteCount : List Char → Nat
  | [] => 0
  | c :: text => c.utf8Size + byteCount text

/-- A line and a column, the column counted in bytes. -/
structure Position where
  line : Nat
  column : Nat
  deriving DecidableEq, Repr

/-- Moves a position over as many characters as lie within `bytes`; the bytes of a character that
is only partly within count for the column. -/
def Position.advance : Position → Nat → List Char → Position
  | p, _, [] => p
  | p, bytes, c :: text =>
    if c.utf8Size ≤ bytes then
      let next : Position := if c = '\n' then ⟨p.line + 1, 0⟩ else ⟨p.line, p.column + c.utf8Size⟩
      next.advance (bytes - c.utf8Size) text
    else ⟨p.line, p.column + bytes⟩

/-- The position after the first `bytes` bytes of a text. -/
def Position.ofOffset (text : List Char) (bytes : Nat) : Position :=
  Position.advance ⟨1, 0⟩ bytes text

end UpdateFeed.Text
