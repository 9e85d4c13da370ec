import UpdateFeed.Glob.Token

/-!
# Matching paths

Patterns are matched against the bytes of a path in UTF-8.  A token at the start of some bytes
leaves several rests, one for each way to match; a list of tokens is matched by carrying the set of
rests along, in which each rest is kept once.  A path matches when the empty rest is left.

A range of a bracket whose ends take several bytes stands for the bytes of its ends and those
between the last byte of its first end and the first byte of its last one.

- `rests_literal`: what the simplest token leaves.
-/

namespace UpdateFeed.Glob

/-! ## §1 Bytes -/

/-- A path as bytes. -/
abbrev Bytes := List UInt8

/-- The byte of a slash. -/
def slash : UInt8 := 0x2F

/-- The bytes of a character. -/
def charBytes (c : Char) : Bytes := String.utf8EncodeChar c

/-- The bytes of a text. -/
def textBytes (text : String) : Bytes := text.toList.flatMap charBytes

/-- What follows `lead`, if some bytes begin with it. -/
def dropLead? : Bytes → Bytes → Option Bytes
  | [], rest => some rest
  | _ :: _, [] => none
  | a :: lead, b :: rest => if a = b then dropLead? lead rest else none

/-- Every end of some bytes, the whole and the empty one included. -/
def ends : Bytes → List Bytes
  | [] => [[]]
  | b :: rest => (b :: rest) :: ends rest

/-- Every end up to the first slash. -/
def endsInName : Bytes → List Bytes
  | [] => [[]]
  | b :: rest => (b :: rest) :: (if b = slash then [] else endsInName rest)

/-- What follows each slash. -/
def afterSlashes : Bytes → List Bytes
  | [] => []
  | b :: rest => if b = slash then rest :: afterSlashes rest else afterSlashes rest

/-! ## §2 Classes -/

/-- Whether a range lists a byte. -/
def rangeLists (range : Char × Char) (b : UInt8) : Bool :=
  let first := charBytes range.1
  let last := charBytes range.2
  if range.1 = range.2 then first.contains b
  else
    first.contains b || last.contains b
      || (first.getLast?.all (· ≤ b) && last.head?.all (b ≤ ·))

/-- Whether a class stands for a byte. -/
def CharClass.admits (listed : CharClass) (b : UInt8) : Bool :=
  listed.negated != listed.ranges.any (rangeLists · b)

/-! ## §3 Tokens -/

mutual

/-- Whether a token matches nothing but the empty text because it lists nothing else. -/
def Token.isVoid : Token → Bool
  | .alternates branches => allVoid branches
  | _ => false

/-- Whether all of some tokens are void. -/
def isVoid : List Token → Bool
  | [] => true
  | token :: tokens => token.isVoid && isVoid tokens

/-- Whether all branches of a group are void. -/
def allVoid : List (List Token) → Bool
  | [] => true
  | branch :: branches => isVoid branch && allVoid branches

end

/-- A byte that is admitted. -/
def oneByte (admits : UInt8 → Bool) : Bytes → List Bytes
  | [] => []
  | b :: rest => if admits b then [rest] else []

mutual

/-- What is left of some bytes behind a token, for each way to match it. -/
def Token.rests : Token → Bytes → List Bytes
  | .literal c, bytes => (dropLead? (charBytes c) bytes).toList
  | .any, bytes => oneByte (· ≠ slash) bytes
  | .zeroOrMore, bytes => endsInName bytes
  | .leadingDirectories, bytes => bytes :: afterSlashes bytes
  -- both take the slash in front of them, and the second one also a slash behind the directories
  | .everythingBelow, b :: rest => if b = slash then ends rest else []
  | .everythingBelow, [] => []
  | .innerDirectories, b :: rest => if b = slash then rest :: afterSlashes rest else []
  | .innerDirectories, [] => []
  | .charClass listed, bytes => oneByte listed.admits bytes
  | .alternates branches, bytes =>
    if allVoid branches then [bytes] else branchesRests branches bytes

/-- What is left behind a list of tokens, from each of several starts. -/
def restsAll : List Token → List Bytes → List Bytes
  | [], starts => starts
  | token :: tokens, starts => restsAll tokens (starts.flatMap token.rests).eraseDups

/-- What is left behind one of several branches; a void branch is no choice. -/
def branchesRests : List (List Token) → Bytes → List Bytes
  | [], _ => []
  | branch :: branches, bytes =>
    (if isVoid branch then [] else restsAll branch [bytes]) ++ branchesRests branches bytes

end

theorem rests_literal (c : Char) (bytes : Bytes) :
    (Token.literal c).rests bytes = (dropLead? (charBytes c) bytes).toList := by
  simp [Token.rests]

/-! ## §4 Paths -/

/-- Whether a pattern matches a path.  Leading directories alone match every path. -/
def matchesPath (tokens : List Token) (path : String) : Bool :=
  match tokens with
  | [.leadingDirectories] => true
  | tokens => (restsAll tokens [textBytes path]).contains []

end UpdateFeed.Glob
