import UpdateFeed.Toml.Scalar

/-!
# Sections of a configuration text

A text is a list of sections.  A section has a header, which names a table or an element of an
array of tables, and entries; the first section has no header.  Each entry stands on a line of its
own.  How the sections make up one table is not looked at here.

The entries of a table in braces are kept as they are written, dotted keys and all.

Arrays and tables in braces may nest 79 deep.
-/

namespace UpdateFeed.Toml

/-! ## §1 Written values -/

/-- A value as written. -/
inductive Written where
  | scalar (value : Value)
  | array (items : List Written)
  /-- A table in braces, by its dotted keys. -/
  | braces (entries : List (List String × Written))
  deriving Inhabited

/-- Entries as written, each with its dotted key. -/
abbrev WrittenEntries := List (List String × Written)

/-- A fixed word. -/
def readWord : List Char → Reader Unit
  | [], text => some ((), text)
  | _ :: _, [] => none
  | letter :: letters, c :: text => if c = letter then readWord letters text else none

/-- The items of an array from behind its bracket on. -/
def readItems (readItem : Reader Written) : Nat → Reader (List Written)
  | 0, _ => none
  | bound + 1, text => do
    match ← skipLines text.length text with
    | ']' :: rest => return ([], rest)
    | start =>
      let (item, rest) ← readItem start
      match ← skipLines rest.length rest with
      -- a comma may also stand behind the last item
      | ',' :: rest =>
        let (items, rest) ← readItems readItem bound rest
        return (item :: items, rest)
      | ']' :: rest => return ([item], rest)
      | _ => none

/-- A key, an equals sign and a value. -/
def readEntry (readItem : Reader Written) (text : List Char) :
    Option ((List String × Written) × List Char) := do
  let (key, rest) ← readKey text
  match rest with
  | '=' :: rest =>
    let (value, rest) ← readItem (skipBlanks rest)
    return ((key, value), rest)
  | _ => none

/-- The entries of a table in braces, of which there is at least one. -/
def readBraceEntries (readItem : Reader Written) : Nat → Reader WrittenEntries
  | 0, _ => none
  | bound + 1, text => do
    let (item, rest) ← readEntry readItem text
    match skipBlanks rest with
    | ',' :: rest =>
      let (items, rest) ← readBraceEntries readItem bound rest
      return (item :: items, rest)
    | '\x7d' :: rest => return ([item], rest)
    | _ => none

/-- A value in which arrays and tables nest at most `depth` deep. -/
def readValue : Nat → Reader Written
  | depth, text =>
    match text with
    | [] => none
    | '[' :: rest =>
      match depth with
      | 0 => none
      | depth + 1 =>
        (readItems (readValue depth) (rest.length + 1) rest).map
          fun (items, rest) => (.array items, rest)
    | '\x7b' :: rest =>
      match depth with
      | 0 => none
      | depth + 1 =>
        match skipBlanks rest with
        | '\x7d' :: rest => some (.braces [], rest)
        | _ =>
          (readBraceEntries (readValue depth) (rest.length + 1) rest).map
            fun (entries, rest) => (.braces entries, rest)
    | 't' :: rest =>
      (readWord ['r', 'u', 'e'] rest).map fun (_, rest) => (.scalar (.boolean true), rest)
    | 'f' :: rest =>
      (readWord ['a', 'l', 's', 'e'] rest).map fun (_, rest) => (.scalar (.boolean false), rest)
    | c :: rest =>
      if c = '"' ∨ c = '\'' then
        (readString (c :: rest)).map
          fun (text, rest) => (.scalar (.string (String.ofList text)), rest)
      else if c = 'i' ∨ c = 'n' then
        (readSpecial (c :: rest)).map fun (value, rest) => (.scalar value, rest)
      else if c = '+' ∨ c = '-' ∨ c.isDigit then
        (readNumber (c :: rest)).map fun (value, rest) => (.scalar value, rest)
      else none

/-- How deep arrays and tables in braces may nest. -/
def depthLimit : Nat := 79

/-! ## §2 Sections -/

/-- What the entries of a section belong to. -/
inductive Header where
  /-- The whole text. -/
  | top
  /-- The table with a dotted key. -/
  | table (key : List String)
  /-- A new element of the array of tables with a dotted key. -/
  | element (key : List String)
  deriving DecidableEq, Repr

/-- A header and the entries behind it. -/
structure Section where
  header : Header
  entries : WrittenEntries

/-- A header from its bracket on. -/
def readHeader : Reader Header
  | '[' :: '[' :: rest => do
    let (key, rest) ← readKey rest
    match rest with
    | ']' :: ']' :: rest => return (.element key, rest)
    | _ => none
  | '[' :: rest => do
    let (key, rest) ← readKey rest
    match rest with
    | ']' :: rest => return (.table key, rest)
    | _ => none
  | _ => none

/-- Adds an entry in front of those of the first section. -/
def consEntry (item : List String × Written) : List Section → List Section
  | [] => []
  | first :: others => { first with entries := item :: first.entries } :: others

/-- The sections of a text of at most `bound` lines, the first one under the given header. -/
def readSections (header : Header) : Nat → List Char → Option (List Section)
  | 0, _ => none
  | bound + 1, text =>
    match skipBlanks text with
    | [] => some [⟨header, []⟩]
    | c :: rest =>
      if c = '#' ∨ c = '\n' ∨ c = '\r' then do
        let (_, rest) ← readLineEnd (c :: rest)
        readSections header bound rest
      else if c = '[' then do
        let (next, rest) ← readHeader (c :: rest)
        let (_, rest) ← readLineEnd rest
        return ⟨header, []⟩ :: (← readSections next bound rest)
      else do
        let (item, rest) ← readEntry (readValue depthLimit) (c :: rest)
        let (_, rest) ← readLineEnd rest
        return consEntry item (← readSections header bound rest)

/-- The sections of a text; a byte order mark at its start is passed over. -/
def sections? (text : List Char) : Option (List Section) :=
  let text :=
    match text with
    | '\ufeff' :: rest => rest
    | text => text
  readSections .top (text.length + 1) text

end UpdateFeed.Toml
