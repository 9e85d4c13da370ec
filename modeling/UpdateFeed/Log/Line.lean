import UpdateFeed.Log.Filter

/-!
# Log lines

The text of the events that a filter shows: a mark for the level, the message, and a line break.
Control characters that a terminal would act on are spelled out.  On a terminal the marks are
symbols.
-/

namespace UpdateFeed.Log

/-- Two hexadecimal digits. -/
def twoHexDigits (value : Nat) : List Char :=
  [Nat.digitChar (value / 16), Nat.digitChar (value % 16)]

/-- A character of a message: escape, bell, backspace, form feed and delete by their number, and
the second row of controls as code points. -/
def escape (c : Char) : List Char :=
  if c = '\x1b' ∨ c = '\x07' ∨ c = '\x08' ∨ c = '\x0c' ∨ c = '\x7f' then
    '\\' :: 'x' :: twoHexDigits c.toNat
  else if 0x80 ≤ c.toNat ∧ c.toNat ≤ 0x9F then
    '\\' :: 'u' :: '\x7b' :: twoHexDigits c.toNat ++ ['\x7d']
  else [c]

/-- The mark in front of a message. -/
def mark (terminal : Bool) : Level → String
  | .error => if terminal then "❌️ " else "ERROR: "
  | .warn => if terminal then "⚠️  " else "WARN: "
  | .info => if terminal then "ℹ️ " else "INFO: "
  | .debug => if terminal then "🔍 " else "DEBUG: "
  | .trace => ""

/-- The text of an event. -/
def Event.render (terminal : Bool) (event : Event) : String :=
  mark terminal event.level ++ String.ofList (event.message.toList.flatMap escape) ++ "\n"

/-- The text of the events that a filter shows. -/
def render (filter : Filter) (terminal : Bool) (events : List Event) : String :=
  String.join ((events.filter filter.allows).map (Event.render terminal))

end UpdateFeed.Log
