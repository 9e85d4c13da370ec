import UpdateFeed.FileTree.Basic
import UpdateFeed.Path

/-!
# Looking up paths

A file system is a tree and a working directory.  A lookup walks the names of a path from the
working directory, or from the top for an absolute path: `.` stays, `..` goes up, and a symbolic
link puts the names of its target in front of the names that are left.  At most 40 links are
followed, which bounds the walk.
-/

namespace UpdateFeed

/-! ## §1 Faults -/

/-- Why a path gives no file. -/
inductive FileFault where
  | notFound
  | busy
  | notADirectory
  | isADirectory
  | nameTooLong
  | tooManyLinks
  | nulInName
  | notText
  deriving DecidableEq, Repr

/-- The wording of a fault. -/
def FileFault.message : FileFault → String
  | .notFound => "No such file or directory (os error 2)"
  | .busy => "Device or resource busy (os error 16)"
  | .notADirectory => "Not a directory (os error 20)"
  | .isADirectory => "Is a directory (os error 21)"
  | .nameTooLong => "File name too long (os error 36)"
  | .tooManyLinks => "Too many levels of symbolic links (os error 40)"
  | .nulInName => "file name contained an unexpected NUL byte"
  | .notText => "stream did not contain valid UTF-8"

/-! ## §2 Walking -/

/-- A tree and the directory that relative paths start from. -/
structure FileSystem where
  tree : Node
  workingDirectory : Address
  deriving Inhabited

namespace FileSystem

/-- Longest name, in bytes. -/
def nameLimit : Nat := 255

/-- Number of bytes from which on a path is too long. -/
def pathLimit : Nat := 4096

/-- How many links a lookup follows. -/
def linkLimit : Nat := 40

/-- Where a walk is after the names up to the next link. -/
inductive Progress where
  | arrived (address : Address)
  /-- At a link in the directory `directory`, with names left. -/
  | atLink (directory : Address) (target : String) (names : List String)
  deriving Repr

/-- Walks names from an address until a link or the end. -/
def advance (tree : Node) : Address → List String → Except FileFault Progress
  | address, [] => .ok (.arrived address)
  | address, name :: names =>
    match tree.at? address with
    | some (.directory entries) =>
      if name = "." then advance tree address names
      else if name = ".." then advance tree address.dropLast names
      else if nameLimit < name.utf8ByteSize then .error .nameTooLong
      else
        match Node.child? name entries with
        | none => .error .notFound
        | some (.link target) => .ok (.atLink address target names)
        | some _ => advance tree (address ++ [name]) names
    | _ => .error .notADirectory

/-- Walks names from an address, following at most `links` links. -/
def walk (tree : Node) (links : Nat) (address : Address) (names : List String) :
    Except FileFault Address :=
  match advance tree address names with
  | .error fault => .error fault
  | .ok (.arrived address) => .ok address
  | .ok (.atLink directory target names) =>
    match links with
    | 0 => .error .tooManyLinks
    | links + 1 =>
      -- the names behind the link are walked from where its target leads
      walk tree links (if Path.isAbsolute target then [] else directory)
        (Path.names target ++ names)

/-- Where a lookup of a path starts. -/
def start (files : FileSystem) (path : String) : Address :=
  if Path.isAbsolute path then [] else files.workingDirectory

/-- What makes a path unusable before any lookup. -/
def pathFault? (path : String) : Option FileFault :=
  if path.toList.contains '\x00' then some .nulInName
  else if path = "" then some .notFound
  else if pathLimit ≤ path.utf8ByteSize then some .nameTooLong
  else none

/-- The address that a path leads to, links followed. -/
def locate (files : FileSystem) (path : String) : Except FileFault Address :=
  match pathFault? path with
  | some fault => .error fault
  | none => walk files.tree linkLimit (files.start path) (Path.names path)

/-- The node that a path leads to. -/
def node? (files : FileSystem) (path : String) : Except FileFault Node :=
  match files.locate path with
  | .error fault => .error fault
  | .ok address => (files.tree.at? address).elim (.error .notFound) .ok

/-- Whether a path leads to a regular file. -/
def isFile (files : FileSystem) (path : String) : Bool :=
  match files.node? path with
  | .ok (.file _) => true
  | _ => false

/-- Whether a path leads to a directory. -/
def isDirectory (files : FileSystem) (path : String) : Bool :=
  match files.node? path with
  | .ok (.directory _) => true
  | _ => false

/-! ## §3 Reading and entering -/

/-- The content of the file that a path leads to. -/
def readBytes (files : FileSystem) (path : String) : Except FileFault ByteArray :=
  match files.node? path with
  | .error fault => .error fault
  | .ok (.file content) => .ok content
  | .ok _ => .error .isADirectory

/-- The text of the file that a path leads to. -/
def readText (files : FileSystem) (path : String) : Except FileFault String :=
  match files.readBytes path with
  | .error fault => .error fault
  | .ok content => (String.fromUTF8? content).elim (.error .notText) .ok

/-- Makes the directory that a path leads to the working directory. -/
def enter (files : FileSystem) (path : String) : Except FileFault FileSystem :=
  match files.locate path with
  | .error fault => .error fault
  | .ok address =>
    match files.tree.at? address with
    | some (.directory _) => .ok { files with workingDirectory := address }
    | _ => .error .notADirectory

end FileSystem

end UpdateFeed
