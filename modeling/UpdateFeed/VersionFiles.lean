import UpdateFeed.Config.Basic
import UpdateFeed.Document
import UpdateFeed.Session

/-!
# Version files

Two files carry the version of the application besides the manifests: one at its top, the other
below `package`.  Each is read, edited and written by itself, so when the second one fails the
first one is already written.
-/

namespace UpdateFeed.VersionFiles

/-- The wording of a fault with a version file. -/
def faultMessage (fault : DocumentFault) : String :=
  "Metadata file error: " ++ fault.message

/-- The paths of the files, each with the keys of the object that holds the version. -/
def places (files : VersionFiles) : List (String × List String) :=
  [(files.packageJson, []), (files.packagingConfig, ["package"])]

/-- Writes the version into one file and gives its path. -/
def writeInto (root version : String) (dryRun : Bool) (place : String × List String) :
    Run DocumentFault String := do
  let (path, keys) := place
  let document ← Run.lift id (Document.ofFile (← Run.files) (Path.join root path))
  let document ← Run.lift id (document.putString keys "version" version)
  if !dryRun then
    Run.setFiles (← Run.lift id (document.save (← Run.files)))
  Run.report .info .versionFiles ("Set version " ++ version ++ " in " ++ path)
  return path

/-- Writes the version into both files and gives their paths.  A dry run writes nothing. -/
def writeVersion (files : VersionFiles) (root version : String) (dryRun : Bool) :
    Run DocumentFault (List String) :=
  files.places.mapM (writeInto root version dryRun)

end UpdateFeed.VersionFiles
