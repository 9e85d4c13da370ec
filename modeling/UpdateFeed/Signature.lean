import UpdateFeed.FileTree.Lookup
import UpdateFeed.Glob.Match
import UpdateFeed.Log.Basic

/-!
# Finding signatures

The names of release bundles contain their version, so a signature file is found by a glob.  The
search starts in the deepest directory that the pattern names without wildcards, and goes down as
many names as the pattern has left, or without a bound behind `**`.  Only regular files count, and
links below the start are not followed.

A relative pattern is matched against paths below the project's root, an absolute one against
whole paths.

Every directory below the start is listed here.  One that cannot be read or opened, for want of
permission or because its path is too long, would be passed over with all that is below it; a file
tree does not say which directories these are, so that case is left out.
-/

namespace UpdateFeed

/-- Why a search fails. -/
inductive SignatureFault where
  | badPattern (pattern : String) (fault : Glob.Fault)
  | unreadable (path : String) (fault : FileFault)
  deriving DecidableEq, Repr

/-- The wording of a fault. -/
def SignatureFault.message : SignatureFault → String
  | .badPattern pattern fault =>
    "Invalid signature glob " ++ pattern ++ ": error parsing glob '" ++ pattern ++ "': "
      ++ fault.message
  | .unreadable path fault => "IO error reading signature " ++ path ++ ": " ++ fault.message

namespace Signature

/-- What a search finds. -/
inductive Finding where
  /-- One file, with its whole text. -/
  | single (path text : String)
  | nothing
  /-- Several files, in order. -/
  | several (paths : List String)
  deriving DecidableEq, Repr

/-! ## §1 Patterns -/

/-- A pattern without the steps `./` at its start. -/
def dropDotStepsChars : Nat → List Char → List Char
  | bound + 1, '.' :: '/' :: rest => dropDotStepsChars bound (rest.dropWhile (· = '/'))
  | _, pattern => pattern

/-- A pattern without the steps `./` at its start, each with the slashes behind it. -/
def dropDotSteps (pattern : String) : String :=
  String.ofList (dropDotStepsChars pattern.length pattern.toList)

/-- Whether a stretch of a pattern has a sign of a glob. -/
def hasWildcard (segment : String) : Bool :=
  segment.toList.any fun c => c = '*' || c = '?' || c = '[' || c = '\x7b'

/-- Where a search starts and how many names it goes down, if there is a bound. -/
structure Descent where
  base : String
  depth? : Option Nat
  deriving DecidableEq, Repr

/-- The descent that a pattern asks for. -/
def descent (pattern : String) : Descent :=
  match Path.plainNames pattern with
  | [] => ⟨"", some 1⟩
  | segments =>
    -- the last name is that of a file, so it is listed and not walked into
    let literal := (segments.dropLast.takeWhile (!hasWildcard ·)).length
    let left := segments.drop literal
    { base := (segments.take literal).foldl Path.join ""
      depth? := if left.contains "**" then none else some left.length }

/-! ## §2 Searching -/

/-- The path of an address below a start. -/
def pathBelow (start : String) (address : Address) : String :=
  address.foldl Path.join start

/-- What a path is compared as: whole for absolute patterns, without the root for others. -/
def candidate? (root : String) (absolute : Bool) (path : String) : Option String :=
  if absolute then some path else Path.relativeTo? root path

/-- The addresses below `start` of the files that match, in the order of the directories.  No
directory below `start` is passed over as one that cannot be read or opened. -/
def matching (files : FileSystem) (root start : String) (absolute : Bool) (depth? : Option Nat)
    (tokens : List Glob.Token) : List Address :=
  match files.node? start with
  | .ok node =>
    (node.filesBelow depth?).filter fun address =>
      (candidate? root absolute (pathBelow start address)).any (Glob.matchesPath tokens)
  | .error _ => []

/-- Addresses in the order of their names. -/
def sorted (addresses : List Address) : List Address :=
  addresses.mergeSort fun a b => !decide (b < a)

/-- An event of a search. -/
def debug (message : String) : Log.Event := ⟨.debug, .signature, message⟩

/-- The files below `root` that a pattern stands for, in the order of their names, with what is
reported about them. -/
def matchingPaths (files : FileSystem) (root pattern : String) :
    Except SignatureFault (List Log.Event × List String) :=
  let pattern := dropDotSteps pattern
  let absolute := Path.isAbsolute pattern
  match Glob.parse pattern with
  | .error fault => .error (.badPattern pattern fault)
  | .ok tokens =>
    let descent := descent pattern
    let start := Path.join (if absolute then "/" else root) descent.base
    if !files.isDirectory start then
      .ok ([debug ("Signature directory " ++ start ++ " does not exist")], [])
    else
      -- the events come in the order of the listing, the paths in that of their names
      let addresses := matching files root start absolute descent.depth? tokens
      let events := addresses.map fun address =>
        debug ("Signature glob " ++ pattern ++ " matched " ++ pathBelow start address)
      .ok (events, (sorted addresses).map (pathBelow start))

/-- Searches below `root` for the file that a pattern stands for; gives what it reports and what
it finds. -/
def search (files : FileSystem) (root pattern : String) :
    List Log.Event × Except SignatureFault Finding :=
  match matchingPaths files root pattern with
  | .error fault => ([], .error fault)
  | .ok (events, []) => (events, .ok .nothing)
  | .ok (events, [path]) =>
    match files.readText path with
    | .error fault => (events, .error (.unreadable path fault))
    | .ok text =>
      let size := toString text.utf8ByteSize
      let event := debug ("Read " ++ size ++ " byte signature from " ++ path)
      (events ++ [event], .ok (.single path text))
  | .ok (events, paths) => (events, .ok (.several paths))

end Signature

end UpdateFeed
