import UpdateFeed.Glob.Lexeme

/-!
# Glob patterns

A pattern as a list of tokens.  Two stars in a row stand for any number of directories where they
make up a whole stretch between slashes, and for two single stars elsewhere.  Inside of braces a
stretch may also begin and end at a comma or a brace.  A group of stars takes the slashes around it
with it, so the token before the group, which is that slash, is dropped.
-/

namespace UpdateFeed.Glob

/-! ## §1 Tokens -/

/-- A part of a pattern by what it matches. -/
inductive Token where
  | literal (c : Char)
  /-- One byte other than a slash. -/
  | any
  /-- Any number of bytes other than slashes. -/
  | zeroOrMore
  /-- Any directories at the start. -/
  | leadingDirectories
  /-- All that follows a slash. -/
  | everythingBelow
  /-- Any directories between two slashes. -/
  | innerDirectories
  | charClass (listed : CharClass)
  /-- One of several patterns. -/
  | alternates (branches : List (List Token))
  deriving Repr, Inhabited

/-- A branch of a group around the place that is read: its tokens so far and the branches before it,
both listed backwards. -/
structure Enclosing where
  tokens : List Token
  branches : List (List Token)

/-- What is read of a pattern. -/
structure Reading where
  /-- The tokens of the innermost branch, listed backwards. -/
  tokens : List Token
  /-- The finished branches of the innermost group, listed backwards. -/
  branches : List (List Token)
  /-- The branches around the innermost group, from the inside out. -/
  around : List Enclosing
  /-- The character before the place that is read. -/
  previous? : Option Char

namespace Reading

/-- The start of a pattern. -/
def start : Reading := ⟨[], [], [], none⟩

/-- Adds a token to the innermost branch. -/
def push (reading : Reading) (token : Token) (last : Char) : Reading :=
  { reading with tokens := token :: reading.tokens, previous? := some last }

/-- Begins a group. -/
def openGroup (reading : Reading) : Reading :=
  { tokens := []
    branches := []
    around := ⟨reading.tokens, reading.branches⟩ :: reading.around
    previous? := some '{' }

/-- Ends the innermost group. -/
def closeGroup (reading : Reading) : Except Fault Reading :=
  match reading.around with
  | [] => .error .unopenedGroup
  | outer :: around =>
    let branches := (reading.tokens.reverse :: reading.branches).reverse
    .ok
      { tokens := .alternates branches :: outer.tokens
        branches := outer.branches
        around
        previous? := some '}' }

/-- A comma: a new branch inside of a group, a literal outside. -/
def comma (reading : Reading) : Reading :=
  if reading.around.isEmpty then reading.push (.literal ',') ','
  else
    { reading with
      tokens := []
      branches := reading.tokens.reverse :: reading.branches
      previous? := some ',' }

/-- Two single stars. -/
def twoStars (reading : Reading) : Reading :=
  { reading with
    tokens := .zeroOrMore :: .zeroOrMore :: reading.tokens
    previous? := some '*' }

/-- A stretch of two stars behind other tokens: it takes the place of the token before it.
A stretch directly behind another one adds nothing to it. -/
def starStretch (reading : Reading) (token : Token) (last : Char) : Reading :=
  let tokens :=
    match reading.tokens with
    | .leadingDirectories :: tokens => .leadingDirectories :: tokens
    | .everythingBelow :: tokens => .everythingBelow :: tokens
    | _ :: tokens => token :: tokens
    | [] => [token]
  { reading with tokens, previous? := some last }

/-- Whether a stretch between slashes can begin at the place that is read. -/
def atStretchStart (reading : Reading) : Bool :=
  reading.previous? = some '/'
    || (!reading.around.isEmpty && (reading.previous? = some ',' || reading.previous? = some '{'))

/-- The tokens at the end of a pattern. -/
def finish (reading : Reading) : Except Fault (List Token) :=
  if reading.around.isEmpty then .ok reading.tokens.reverse else .error .unclosedGroup

end Reading

/-! ## §2 Reading -/

/-- Reads lexemes. -/
def readLexemes (reading : Reading) : List Lexeme → Except Fault (List Token)
  | [] => reading.finish
  -- two stars with a slash: at the very start, where a stretch can begin, or within a name
  | .star :: .star :: .char '/' :: rest =>
    if reading.tokens.isEmpty then readLexemes (reading.push .leadingDirectories '/') rest
    else if reading.atStretchStart then
      readLexemes (reading.starStretch .innerDirectories '/') rest
    else readLexemes (reading.twoStars.push (.literal '/') '/') rest
  -- two stars without one: a stretch only if the pattern, or in a group its branch, ends here
  | .star :: .star :: rest =>
    if reading.tokens.isEmpty then
      if rest.isEmpty then readLexemes (reading.push .leadingDirectories '*') rest
      else readLexemes reading.twoStars rest
    else if reading.atStretchStart
        && (rest.isEmpty
          || (!reading.around.isEmpty
            && (rest.head? = some .comma || rest.head? = some .closeGroup))) then
      readLexemes (reading.starStretch .everythingBelow '*') rest
    else readLexemes reading.twoStars rest
  | .star :: rest => readLexemes (reading.push .zeroOrMore '*') rest
  | .question :: rest => readLexemes (reading.push .any '?') rest
  | .charClass listed :: rest => readLexemes (reading.push (.charClass listed) ']') rest
  | .openGroup :: rest => readLexemes reading.openGroup rest
  | .closeGroup :: rest =>
    match reading.closeGroup with
    | .ok reading => readLexemes reading rest
    | .error fault => .error fault
  | .comma :: rest => readLexemes reading.comma rest
  | .broken fault :: _ => .error fault
  | .char c :: rest => readLexemes (reading.push (.literal c) c) rest
  | .escaped c :: rest => readLexemes (reading.push (.literal c) c) rest

/-- Reads a pattern. -/
def parse (pattern : String) : Except Fault (List Token) :=
  readLexemes Reading.start (lexemes pattern.toList)

end UpdateFeed.Glob
