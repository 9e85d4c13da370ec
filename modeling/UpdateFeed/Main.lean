import Std.Time.DateTime.Timestamp
import UpdateFeed.FileTree.Changes
import UpdateFeed.FileTree.Create
import UpdateFeed.Program

/-!
# Command line program

Takes over from the disk what a call looks at, runs the program on that, and carries out its
changes: changed files are written beside their place and moved onto it.

A symbolic link on the way to a file is taken over with the place that it finally leads to.  Below a
directory that a glob searches, the names are taken over and the content of a single match.
-/

namespace UpdateFeed.Main

/-- The path of an address. -/
def pathOf (address : Address) : String := "/" ++ "/".intercalate address

/-- A name that no file has, as the target of a link that leads nowhere. -/
def nowhere : String := "\x00"

/-- What stands at an address, links not followed, if anything does. -/
def kindAt (address : Address) : IO (Option IO.FS.FileType) := do
  let here ← IO.currentDir
  try
    let metadata ← (here / pathOf address).symlinkMetadata
    return some metadata.type
  catch _ => return none

/-- Where a link finally leads. -/
def finalTarget (address : Address) : IO String := do
  try
    let target ← IO.FS.realPath (pathOf address)
    return target.toString
  catch _ => return nowhere

/-- Puts a node at an address. -/
def put (files : FileSystem) (address : Address) (node : Node) : FileSystem :=
  (files.create (pathOf address) node).toOption.getD files

/-- Takes over what names lead to from an address. -/
partial def takeNames (files : FileSystem) (address : Address) : List String → IO FileSystem
  | [] => return files
  | "." :: names => takeNames files address names
  | ".." :: names => takeNames files address.dropLast names
  | name :: names => do
    let place := address ++ [name]
    match ← kindAt place with
    | none => return files
    | some .dir => takeNames (put files place (.directory [])) place names
    | some .symlink =>
      let target ← finalTarget place
      let files := put files place (.link target)
      if Path.isAbsolute target then takeNames files [] (Path.names target ++ names)
      else return files
    | some _ =>
      let content ← IO.FS.readBinFile (pathOf place)
      return put files place (.file content)

/-- Takes over what a path leads to. -/
def takePath (files : FileSystem) (path : String) : IO FileSystem :=
  takeNames files (files.start path) (Path.names path)

/-- Takes over the names below a directory, at most `depth?` names down. -/
partial def takeBelow (files : FileSystem) (address : Address) (depth? : Option Nat) :
    IO FileSystem := do
  if depth? = some 0 then return files
  let here ← IO.currentDir
  let mut files := files
  for found in ← (here / pathOf address).readDir do
    let place := address ++ [found.fileName]
    match ← kindAt place with
    | some .dir =>
      files ← takeBelow (put files place (.directory [])) place (depth?.map (· - 1))
    | some .file => files := put files place (.file ByteArray.empty)
    | some .symlink => files := put files place (.link nowhere)
    | _ => pure ()
  return files

/-- Takes over what the search for a signature looks at. -/
def takeSearch (files : FileSystem) (pattern : String) : IO FileSystem := do
  let pattern := Signature.dropDotSteps pattern
  let descent := Signature.descent pattern
  let start := Path.join (if Path.isAbsolute pattern then "/" else Program.root) descent.base
  let files ← takePath files start
  match files.locate start with
  | .error _ => return files
  | .ok address =>
    if (← kindAt address) == some .dir then takeBelow files address descent.depth? else return files

/-- Takes over the text of the signature, if there is a single one. -/
def takeMatch (files : FileSystem) (pattern : String) : IO FileSystem :=
  match (Signature.search files Program.root pattern).2 with
  | .ok (.single path _) => takePath files path
  | _ => return files

/-- Takes over what a configuration has the program look at. -/
def takeProject (files : FileSystem) (config : Config) : IO FileSystem := do
  let settings := Target.all.map config.settings
  let patterns := settings.map (·.signaturePattern)
  let versionFiles := [config.versionFiles.packageJson, config.versionFiles.packagingConfig]
  let paths := settings.map (·.manifest) ++ versionFiles
  let files ← patterns.foldlM takeSearch files
  let files ← patterns.foldlM takeMatch files
  (paths.map (Path.join Program.root)).foldlM takePath files

/-- Takes over what a call looks at. -/
def takeAll (arguments : List String) : IO FileSystem := do
  let here ← IO.currentDir
  let top : FileSystem := ⟨.directory [], []⟩
  let files ← takePath top here.toString
  let files := { files with workingDirectory := Path.plainNames here.toString }
  match CommandLine.read arguments with
  | .error _ => return files
  | .ok choices =>
    let directory := choices.directory?.getD "."
    let files ← takePath files directory
    match files.enter directory with
    | .error _ => return files
    | .ok entered =>
      let named := choices.config?.getD (Path.join Program.root Config.fileName)
      let entered ← takePath entered named
      match Config.ofProject entered Program.root choices.config? with
      | .error _ => return { entered with workingDirectory := files.workingDirectory }
      | .ok config =>
        let entered ← takeProject entered config
        return { entered with workingDirectory := files.workingDirectory }

/-- Moves a new file onto its place. -/
def replaceFile (address : Address) (content : ByteArray) : IO Unit := do
  let staged := pathOf (address.dropLast ++ [".tmp" ++ toString (← IO.monoNanosNow)])
  IO.FS.writeBinFile staged content
  IO.FS.rename staged (pathOf address)

/-- Carries out the changes of a run. -/
def carryOut (before after : FileSystem) : IO Unit := do
  for (address, holding?) in Node.changes before.tree after.tree do
    match holding? with
    | some (.file content) => replaceFile address content
    | _ => pure ()

/-- Runs the program with arguments and gives its exit code. -/
def run (arguments : List String) : IO UInt32 := do
  let files ← takeAll arguments
  let time ← Std.Time.Timestamp.now
  let call : Program.Call :=
    { arguments
      logVariable? := ← IO.getEnv "RUST_LOG"
      now := ⟨time.toSecondsSinceUnixEpoch.val, 0⟩
      terminal := ← (← IO.getStderr).isTty }
  let ending := Program.run files call
  carryOut files ending.files
  (← IO.getStdout).write ⟨ending.output.toArray⟩
  (← IO.getStdout).flush
  (← IO.getStderr).putStr ending.log
  return ending.exitCode.toUInt32

end UpdateFeed.Main

/-- Runs the program with the arguments of the command line. -/
def main (arguments : List String) : IO UInt32 :=
  UpdateFeed.Main.run arguments
