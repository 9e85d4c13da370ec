import UpdateFeed.Log.Basic
import UpdateFeed.Text.Alphanumeric

/-!
# Log filters

A filter decides which events are shown.  It is a list of directives
`target[span{field=value}]=level` separated by commas, of which every part may be left out.  A
directive applies to the events whose origin starts with its target; of those that apply to an
event, the most specific one decides: the longest target, then the greatest number of fields, then
the last one written.

Spans and field values select events inside of spans.  The program has none, so a directive with a
span or a value never applies.

- `allows_ofLevel_iff`: a filter of one level shows the events up to that level.
-/

namespace UpdateFeed.Log

/-! ## §1 Directives -/

/-- One rule of a filter. -/
structure Directive where
  /-- What the name of an origin has to start with; nothing applies to every origin. -/
  target? : Option String
  /-- The fields that an event has to have. -/
  fields : List String
  /-- Whether the rule asks for a span or a value of a field. -/
  needsSpan : Bool
  /-- The amount of detail that is shown; zero shows nothing. -/
  detail : Nat
  deriving DecidableEq, Repr

namespace Directive

/-- The names of the fields of every event. -/
def eventFields : List String := ["message"]

/-- Whether a directive applies to an event. -/
def appliesTo (directive : Directive) (event : Event) : Bool :=
  !directive.needsSpan
    && directive.target?.all (fun target => target.toList.isPrefixOf event.origin.name.toList)
    && directive.fields.all (eventFields.contains ·)

/-- The length of the target, one more than its bytes, or zero for none. -/
def targetLength (directive : Directive) : Nat :=
  directive.target?.elim 0 (·.utf8ByteSize + 1)

/-- Whether a directive is at least as specific as another one. -/
def atLeastAsSpecific (directive other : Directive) : Bool :=
  other.targetLength < directive.targetLength ||
    (other.targetLength = directive.targetLength &&
      other.fields.length ≤ directive.fields.length)

end Directive

/-! ## §2 Filters -/

/-- The rules that select the events to show. -/
abbrev Filter := List Directive

namespace Filter

/-- The rule that decides about an event: of the most specific ones the last. -/
def deciding (filter : Filter) (event : Event) : Option Directive :=
  (filter.filter (·.appliesTo event)).foldl
    (fun best directive =>
      -- of two that are equally specific the later one stays
      match best with
      | none => some directive
      | some other => if directive.atLeastAsSpecific other then some directive else some other)
    none

/-- Whether a filter shows an event. -/
def allows (filter : Filter) (event : Event) : Bool :=
  match filter.deciding event with
  | none => false
  | some directive => event.level.detail ≤ directive.detail

/-- The filter that shows the events up to a level. -/
def ofLevel (level : Level) : Filter :=
  [{ target? := none, fields := [], needsSpan := false, detail := level.detail }]

/-- A filter of one level shows the events up to that level. -/
theorem allows_ofLevel_iff (level : Level) (event : Event) :
    (ofLevel level).allows event = true ↔ event.level.detail ≤ level.detail := by
  simp [allows, deciding, ofLevel, Directive.appliesTo]

end Filter

/-! ## §3 Reading filters -/

namespace Filter

/-- A letter of ASCII in lower case. -/
def lowerName (text : List Char) : String :=
  String.ofList (text.map Char.toLower)

/-- The value of a row of digits, with or without a plus sign. -/
def digits? (text : List Char) : Option Nat :=
  let digits := if text.head? = some '+' then text.drop 1 else text
  if digits ≠ [] ∧ digits.all Char.isDigit then
    some (digits.foldl (fun value c => value * 10 + (c.toNat - '0'.toNat)) 0)
  else none

/-- The detail that a word of a filter stands for: a level in any case, `off`, or a number up to
five. -/
def detail? (word : List Char) : Option Nat :=
  match digits? word with
  | some value => if value ≤ 5 then some value else none
  | none =>
    if lowerName word = "off" then some 0 else (Level.ofName? (lowerName word)).map Level.detail

/-- The detail behind an equals sign; nothing written shows everything. -/
def detailOrAll? (word : List Char) : Option Nat :=
  if word = [] then some Level.trace.detail else detail? word

/-- A directive that is only a level or only a target. -/
def ofWord (word : List Char) : Directive :=
  match detail? word with
  | some detail => ⟨none, [], false, detail⟩
  | none => ⟨some (String.ofList word), [], false, Level.trace.detail⟩

/-- A field of a directive, and whether it has a value. -/
def fieldOf (text : List Char) : String × Bool :=
  (String.ofList (text.takeWhile (· ≠ '=')), text.contains '=')

/-- Blanks around a directive. -/
def isSpace (c : Char) : Bool :=
  c.isWhitespace
    || [0x0B, 0x0C, 0x85, 0xA0, 0x1680, 0x2028, 0x2029, 0x202F, 0x205F, 0x3000].contains c.toNat
    || (0x2000 ≤ c.toNat && c.toNat ≤ 0x200A)

/-- A text without the blanks around it. -/
def trim (text : List Char) : List Char :=
  ((text.dropWhile isSpace).reverse.dropWhile isSpace).reverse

/-!
The delimiters of a directive are looked for in its trimmed text, and the stretches between them
are then cut at the same places out of the text as it is written.  So blanks in front of a
directive move its target and its level.  Below, `shape` is what is left of the trimmed text and
`place` the number of its characters that are used up.
-/

/-- What may follow a span: nothing, or an equals sign and a level. -/
def afterSpan? (text : List Char) (directive : Directive) (place : Nat) :
    List Char → Option Directive
  | [] => some directive
  | '=' :: _ => (detailOrAll? (text.drop (place + 1))).map fun detail => { directive with detail }
  | _ => none

/-- What follows the opening bracket of a span. -/
def spanPart? (text : List Char) (target? : Option String) (place : Nat) (shape : List Char) :
    Option Directive :=
  let name := shape.takeWhile fun c => c ≠ ']' && c ≠ '\x7b'
  let place := place + name.length + 1
  match shape.drop name.length with
  | ']' :: shape => afterSpan? text ⟨target?, [], true, Level.trace.detail⟩ place shape
  | '\x7b' :: shape =>
    let field := shape.takeWhile (· ≠ '\x7d')
    match shape.drop field.length with
    | '\x7d' :: ']' :: shape =>
      let (fieldName, hasValue) := fieldOf ((text.drop place).take field.length)
      if field = [] then none
      else
        afterSpan? text ⟨target?, [fieldName], name ≠ [] || hasValue, Level.trace.detail⟩
          (place + field.length + 2) shape
    | _ => none
  | _ => none

/-- Whether the target of a directive may start with a character. -/
def mayStart (c : Char) : Bool :=
  c = '-' || c = ':' || c = '_' || Text.isAlphanumeric c

/-- Reads one directive. -/
def directive? (text : List Char) : Option Directive :=
  match trim text with
  | [] => none
  | '[' :: shape => spanPart? text none 1 shape
  | c :: shape =>
    if mayStart c then
      let length := ((c :: shape).takeWhile fun c => c ≠ '=' && c ≠ '[').length
      let target := String.ofList (text.take length)
      match (c :: shape).drop length with
      | '=' :: _ =>
        (detailOrAll? (text.drop (length + 1))).map fun detail => ⟨some target, [], false, detail⟩
      | '[' :: shape => spanPart? text (some target) (length + 1) shape
      | _ => some (ofWord text)
    else none

/-- Reads a filter; nothing if one of its directives cannot be read. -/
def ofText? (text : String) : Option Filter :=
  ((text.toList.splitOn ',').filter (· ≠ [])).mapM directive?

end Filter

end UpdateFeed.Log
