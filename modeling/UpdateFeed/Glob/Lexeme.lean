/-!
# Lexemes of glob patterns

A pattern is first cut into lexemes.  Signs with a meaning are lexemes of their own, a character
behind a backslash is literal, and a bracket with all that it lists is one lexeme.

In a bracket, a first `!` or `^` asks for the characters that are not listed; a first `]` or `-`
and a last `-` are literal; and a further range in a row, as in `a-c-z`, moves the end of the
range before it.
-/

namespace UpdateFeed.Glob

/-! ## §1 Faults and classes -/

/-- Why a pattern cannot be read. -/
inductive Fault where
  | unclosedClass
  | invalidRange (first last : Char)
  | unclosedGroup
  | unopenedGroup
  | danglingBackslash
  deriving DecidableEq, Repr

/-- The wording of a fault. -/
def Fault.message : Fault → String
  | .unclosedClass => "unclosed character class; missing ']'"
  | .invalidRange first last =>
    "invalid range; '" ++ first.toString ++ "' > '" ++ last.toString ++ "'"
  | .unclosedGroup =>
    "unclosed alternate group; missing '\x7d' (maybe escape '\x7b' with '[\x7b]'?)"
  | .unopenedGroup =>
    "unopened alternate group; missing '\x7b' (maybe escape '\x7d' with '[\x7d]'?)"
  | .danglingBackslash => "dangling '\\'"

/-- What a bracket lists. -/
structure CharClass where
  /-- Whether the bracket stands for what is not listed. -/
  negated : Bool
  /-- The ranges by first and last character; a single character is both. -/
  ranges : List (Char × Char)
  deriving DecidableEq, Repr

/-! ## §2 Lexemes -/

/-- A part of a pattern. -/
inductive Lexeme where
  | char (c : Char)
  /-- A character behind a backslash. -/
  | escaped (c : Char)
  | question
  | star
  | openGroup
  | closeGroup
  | comma
  | charClass (listed : CharClass)
  /-- The place from which on the pattern cannot be read. -/
  | broken (fault : Fault)
  deriving DecidableEq, Repr

/-- Moves the end of the last range; the ranges are listed backwards. -/
def extendRange (last : Char) : List (Char × Char) → Except Fault (List (Char × Char))
  | [] => .ok []
  | (first, _) :: ranges =>
    if last < first then .error (.invalidRange first last) else .ok ((first, last) :: ranges)

mutual

/-- The lexemes of a pattern. -/
def lexemes : List Char → List Lexeme
  | [] => []
  | '?' :: rest => .question :: lexemes rest
  | '*' :: rest => .star :: lexemes rest
  | '{' :: rest => .openGroup :: lexemes rest
  | '}' :: rest => .closeGroup :: lexemes rest
  | ',' :: rest => .comma :: lexemes rest
  | '[' :: '!' :: rest => classLexemes true [] true false rest
  | '[' :: '^' :: rest => classLexemes true [] true false rest
  | '[' :: rest => classLexemes false [] true false rest
  | ['\\'] => [.broken .danglingBackslash]
  | '\\' :: c :: rest => .escaped c :: lexemes rest
  | c :: rest => .char c :: lexemes rest

/-- The lexemes from within a bracket on.  `ranges` lists backwards what is read, `first` says that
nothing is, and `inRange` that a dash was the last character. -/
def classLexemes (negated : Bool) (ranges : List (Char × Char)) (first inRange : Bool) :
    List Char → List Lexeme
  | [] => [.broken .unclosedClass]
  | c :: rest =>
    if c = ']' ∧ !first then
      let listed := if inRange then ('-', '-') :: ranges else ranges
      .charClass ⟨negated, listed.reverse⟩ :: lexemes rest
    else if c = '-' ∧ !first ∧ !inRange then classLexemes negated ranges false true rest
    else if inRange ∧ c ≠ ']' then
      match extendRange c ranges with
      | .error fault => [.broken fault]
      | .ok ranges => classLexemes negated ranges false false rest
    else classLexemes negated ((c, c) :: ranges) false false rest

end

/-- The character that a lexeme ends in. -/
def Lexeme.last : Lexeme → Char
  | .char c => c
  | .escaped c => c
  | .question => '?'
  | .star => '*'
  | .openGroup => '{'
  | .closeGroup => '}'
  | .comma => ','
  | .charClass _ => ']'
  | .broken _ => '\\'

end UpdateFeed.Glob
