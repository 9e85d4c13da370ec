/-!
# File trees

A tree holds files, directories and symbolic links.  A place in it is an *address*, the list of
names from the top down to the place.  `put` writes a node at an address and leaves every address
that is neither above nor below it alone.

- `at?_nil`, `at?_cons`: how an address is followed.
-/

namespace UpdateFeed

/-! ## §1 Nodes -/

/-- What a name in a directory stands for. -/
inductive Node where
  | file (content : ByteArray)
  | directory (entries : List (String × Node))
  /-- A symbolic link with its target as written. -/
  | link (target : String)
  deriving Inhabited

/-- The names from the top of a tree down to a place in it. -/
abbrev Address := List String

namespace Node

/-- The entries of a directory, in the order in which they are listed. -/
abbrev Entries := List (String × Node)

/-- The node of a name in a directory. -/
def child? (name : String) : Entries → Option Node
  | [] => none
  | (n, node) :: entries => if n = name then some node else child? name entries

/-- Gives a name a node: in place if the name is there, as the last entry otherwise. -/
def setEntry (name : String) (node : Node) : Entries → Entries
  | [] => [(name, node)]
  | (n, old) :: entries =>
    if n = name then (name, node) :: entries else (n, old) :: setEntry name node entries

/-- Removes a name. -/
def dropEntry (name : String) (entries : Entries) : Entries :=
  entries.filter (·.1 ≠ name)

/-! ## §2 Addresses -/

/-- The node at an address. -/
def at? : Address → Node → Option Node
  | [], node => some node
  | name :: names, .directory entries => (child? name entries).bind (at? names)
  | _ :: _, _ => none

@[simp] theorem at?_nil (node : Node) : at? [] node = some node := rfl

@[simp] theorem at?_cons (name : String) (names : Address) (entries : Entries) :
    at? (name :: names) (.directory entries) = (child? name entries).bind (at? names) := rfl

/-- Writes a node at an address whose parent directory exists; without one nothing changes. -/
def put : Node → Address → Node → Node
  | _, [], node => node
  | .directory entries, [name], node => .directory (setEntry name node entries)
  | .directory entries, name :: names, node =>
    match child? name entries with
    | some child => .directory (setEntry name (put child names node) entries)
    | none => .directory entries
  | tree, _ :: _, _ => tree

/-- Removes what is at an address. -/
def remove : Node → Address → Node
  | .directory entries, [name] => .directory (dropEntry name entries)
  | .directory entries, name :: names =>
    match child? name entries with
    | some child => .directory (setEntry name (remove child names) entries)
    | none => .directory entries
  | tree, _ => tree

/-- Whether a node is a directory. -/
def isDirectory : Node → Bool
  | .directory _ => true
  | _ => false

/-! ## §3 Files below a directory -/

mutual

/-- The addresses of the regular files below a node, at most `depth` names down if a depth is
given.  Links are not followed, and every directory is taken as one that can be read and opened. -/
def filesBelow (depth : Option Nat) : Node → List Address
  | .directory entries => if depth = some 0 then [] else filesOf depth entries
  | _ => []

/-- The addresses of the regular files in and below the entries of a directory. -/
def filesOf (depth : Option Nat) : List (String × Node) → List Address
  | [] => []
  | (name, node) :: entries =>
    let here :=
      match node with
      | .file _ => [[name]]
      | _ => (filesBelow (depth.map (· - 1)) node).map (name :: ·)
    here ++ filesOf depth entries

end

end Node

end UpdateFeed
