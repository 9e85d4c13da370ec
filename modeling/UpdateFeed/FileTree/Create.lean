import UpdateFeed.FileTree.Lookup

/-!
# Setting up a file tree

`create` puts a node at a path and makes the directories that are missing above it.  A file that is
created over a link to a file takes the place of that file.
-/

namespace UpdateFeed.FileSystem

/-- Walks names from an address and makes a directory where a name is free. -/
def makeBelow (tree : Node) (address : Address) :
    List String → Except FileFault (Node × Address)
  | [] => .ok (tree, address)
  | name :: names =>
    match walk tree linkLimit address [name] with
    | .ok next => makeBelow tree next names
    | .error .notFound =>
      makeBelow (tree.put (address ++ [name]) (.directory [])) (address ++ [name]) names
    | .error fault => .error fault

/-- Makes the directories of a path. -/
def makeDirectories (files : FileSystem) (path : String) : Except FileFault FileSystem :=
  match makeBelow files.tree (files.start path) (Path.plainNames path) with
  | .ok (tree, _) => .ok { files with tree }
  | .error fault => .error fault

/-- Makes the directories above the last name of a path. -/
def makeParents (files : FileSystem) (path : String) : Except FileFault FileSystem :=
  match makeBelow files.tree (files.start path) (Path.plainNames path).dropLast with
  | .ok (tree, _) => .ok { files with tree }
  | .error fault => .error fault

/-- Where a node for a path goes: the place that the path leads to, or its free last name. -/
def placeFor (files : FileSystem) (path : String) (node : Node) : Except FileFault Address :=
  let names := Path.plainNames path
  match walk files.tree linkLimit (files.start path) names.dropLast with
  | .error fault => .error fault
  | .ok parent =>
    let place := parent ++ names.getLast?.toList
    match node with
    | .link _ => .ok place
    | _ =>
      match files.locate path with
      | .ok address => .ok address
      | .error _ => .ok place

/-- Puts a node at a path, with the directories above it. -/
def create (files : FileSystem) (path : String) (node : Node) : Except FileFault FileSystem :=
  match node with
  | .directory _ => files.makeDirectories path
  | _ =>
    match files.makeParents path with
    | .error fault => .error fault
    | .ok files =>
      match files.placeFor path node with
      | .error fault => .error fault
      | .ok address => .ok { files with tree := files.tree.put address node }

/-- Removes what a path names; links are removed themselves, and a name that is free stays so. -/
def remove (files : FileSystem) (path : String) : FileSystem :=
  let names := Path.plainNames path
  match walk files.tree linkLimit (files.start path) names.dropLast, names.getLast? with
  | .ok parent, some name => { files with tree := files.tree.remove (parent ++ [name]) }
  | _, _ => files

end UpdateFeed.FileSystem
