import UpdateFeed.FileTree.Lookup

/-!
# Replacing a file in one step

A text is first written to a new file beside its place, and that file is then moved onto the
place.  So a reader finds the former content or the whole new one.  A symbolic link at the place
is itself replaced.

`replaceText` fails in two ways: the new file cannot be made in the parent directory, or the move
is refused.  The tree is then as before.
-/

namespace UpdateFeed

/-- Why a file was not replaced. -/
inductive ReplaceFault where
  /-- No file can be made in the directory of this path. -/
  | inDirectory (directory : String) (fault : FileFault)
  /-- The new file cannot be moved onto the path. -/
  | onPath (fault : FileFault)
  deriving DecidableEq, Repr

namespace FileSystem

/-- The directory in which the new file for a path is made. -/
def stagingDirectory (path : String) : String :=
  match Path.parent? path with
  | none => "."
  | some "" => "."
  | some parent => parent

/-- The address of a path whose last name need not exist and is not followed, for a move onto
it. -/
def destination (files : FileSystem) (path : String) : Except FileFault Address :=
  match pathFault? path with
  | some fault => .error fault
  | none =>
    let names := Path.plainNames path
    -- the last step `.` asks for a directory
    match walk files.tree linkLimit (files.start path) (names.dropLast ++ ["."]) with
    | .error fault => .error fault
    | .ok directory =>
      match names.getLast? with
      -- the top and the steps have no name of their own to move onto
      | none => .error .busy
      | some "." => .error .busy
      | some ".." => .error .busy
      | some name =>
        if nameLimit < name.utf8ByteSize then .error .nameTooLong
        else if path.toList.getLast? = some '/' then .error .notADirectory
        else
          match files.tree.at? (directory ++ [name]) with
          | some (.directory _) => .error .isADirectory
          | _ => .ok (directory ++ [name])

/-- Replaces the file at a path by one with the given text. -/
def replaceText (files : FileSystem) (path text : String) : Except ReplaceFault FileSystem :=
  let directory := stagingDirectory path
  match files.node? directory with
  | .error fault => .error (.inDirectory directory fault)
  | .ok (.directory _) =>
    match files.destination path with
    | .error fault => .error (.onPath fault)
    | .ok address => .ok { files with tree := files.tree.put address (.file text.toUTF8) }
  | .ok _ => .error (.inDirectory directory .notADirectory)

end FileSystem

end UpdateFeed
