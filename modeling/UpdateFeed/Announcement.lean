import UpdateFeed.Manifest
import UpdateFeed.VersionFiles
import UpdateFeed.Signature

/-!
# Announcing a release

For each selected target the manifest is loaded, given the signature that was found, the address and
version of the release, its notes and the time, and then saved and printed.  Each target is finished
before the next one begins, so when one fails those before it stay updated.  With a version the
version files follow at the end.

A dry run prints the manifests and writes no file.
-/

namespace UpdateFeed.Announcement

/-! ## §1 Requests, reports and faults -/

/-- What becomes of a target without exactly one signature. -/
inductive Strictness where
  /-- Its signatures stay as they are, with a warning. -/
  | lenient
  /-- The announcement fails. -/
  | strict
  deriving DecidableEq, Repr

/-- What is to be announced, and where. -/
structure Request where
  selector : Selector
  version? : Option String
  notes? : Option String
  strictness : Strictness
  dryRun : Bool
  deriving DecidableEq, Repr

/-- What was done for a target. -/
structure Entry where
  target : Target
  /-- Path of the manifest, as configured. -/
  manifest : String
  /-- Path of the signature file that was used. -/
  signature? : Option String
  deriving DecidableEq, Repr

/-- What was done for a request. -/
structure Report where
  targets : List Entry
  /-- Paths of the version files that carry the version now, as configured. -/
  versionFiles : List String
  deriving DecidableEq, Repr

/-- Why an announcement fails. -/
inductive Fault where
  | manifest (fault : ManifestFault)
  | signature (fault : SignatureFault)
  | versionFile (fault : DocumentFault)
  | unsigned (target : Target) (pattern : String)
  | severalSignatures (target : Target) (pattern : String) (count : Nat)
  | blankSignature (target : Target) (path : String)
  /-- The output does not take a manifest. -/
  | outputClosed
  deriving DecidableEq, Repr

/-- The wording of a fault. -/
def Fault.message : Fault → String
  | .manifest fault => "Manifest error: " ++ fault.message
  | .signature fault => "Signature error: " ++ fault.message
  | .versionFile fault => VersionFiles.faultMessage fault
  | .unsigned target pattern =>
    "No signature matches " ++ pattern ++ " for " ++ target.name ++ " (required by --signature)"
  | .severalSignatures target pattern count =>
    "Signature glob " ++ pattern ++ " for " ++ target.name ++ " is ambiguous, matched "
      ++ toString count ++ " files (required by --signature)"
  | .blankSignature target path =>
    "Signature file " ++ path ++ " for " ++ target.name ++ " is empty (required by --signature)"
  | .outputClosed => "Failed to write manifest to output: output closed"

/-! ## §2 Signatures -/

/-- Reports an event of an announcement. -/
def note (level : Log.Level) (message : String) : Run Fault Unit :=
  Run.report level .announcement message

/-- The path and text of the signature to use for a target, if there is one. -/
def chooseSignature (root : String) (request : Request) (target : Target) (pattern : String) :
    Run Fault (Option (String × String)) := do
  let (events, finding) := Signature.search (← Run.files) root pattern
  Run.reportAll events
  match ← Run.lift .signature finding, request.strictness with
  | .single path text, strictness =>
    if text ≠ "" then
      note .info ("Using " ++ target.name ++ " signature " ++ path)
      return some (path, text)
    else if strictness = .strict then throw (.blankSignature target path)
    else
      note .warn (target.name ++ " signature " ++ path ++ " is empty, leaving signatures unchanged")
      return none
  | .nothing, .strict => throw (.unsigned target pattern)
  | .nothing, .lenient =>
    note .warn
      ("No " ++ target.name ++ " signature matches " ++ pattern ++ ", leaving signatures unchanged")
    return none
  | .several paths, .strict => throw (.severalSignatures target pattern paths.length)
  | .several paths, .lenient =>
    note .warn
      (toString paths.length ++ " files match " ++ target.name ++ " signature glob " ++ pattern
        ++ ", leaving signatures unchanged:")
    Run.reportAll (paths.map fun path => ⟨.warn, .announcement, "  " ++ path⟩)
    return none

/-! ## §3 Edits -/

/-- Applies an edit if there is a value for it. -/
def applyIfGiven (value? : Option String)
    (edit : Manifest → String → Except ManifestFault Manifest) (manifest : Manifest) :
    Except ManifestFault Manifest :=
  value?.elim (.ok manifest) (edit manifest)

/-- Gives a platform its signature and its download address. -/
def editPlatform (signature? url? : Option String) (manifest : Manifest) (platform : String) :
    Except ManifestFault Manifest := do
  let manifest ← applyIfGiven signature? (·.withSignature platform ·) manifest
  applyIfGiven url? (·.withAddress platform ·) manifest

/-- The manifest of a release: every platform of the target, then the version, the notes and the
time. -/
def editManifest (settings : TargetSettings) (request : Request) (now : Instant)
    (signature? : Option String) (manifest : Manifest) : Except ManifestFault Manifest := do
  let url? := request.version?.map settings.downloadAddress
  let manifest ← settings.platforms.foldlM (editPlatform signature? url?) manifest
  let manifest ← applyIfGiven request.version? Manifest.withVersion manifest
  let manifest ← applyIfGiven request.notes? Manifest.withNotes manifest
  manifest.withDate now

/-! ## §4 Announcements -/

/-- Announces a release in the manifest of one target. -/
def announceTarget (root : String) (config : Config) (request : Request) (now : Instant)
    (target : Target) : Run Fault Entry := do
  let settings := config.settings target
  note .info ("Updating " ++ target.name ++ " manifest")
  let manifest ←
    Run.lift .manifest (Manifest.ofFile (← Run.files) (Path.join root settings.manifest))
  let signature? ← chooseSignature root request target settings.signaturePattern
  let manifest ←
    Run.lift .manifest (editManifest settings request now (signature?.map Prod.snd) manifest)
  if !request.dryRun then
    Run.setFiles (← Run.lift .manifest (manifest.save (← Run.files)))
    note .info
      ("Wrote " ++ settings.manifest ++ " (" ++ manifest.version?.getD "no version" ++ ")")
  -- a dry run prints what it would have saved
  Run.write .outputClosed manifest.render
  Run.write .outputClosed "\n"
  return ⟨target, settings.manifest, signature?.map Prod.fst⟩

/-- Writes the version into the version files if there is one. -/
def announceVersion (root : String) (config : Config) (request : Request) :
    Run Fault (List String) :=
  match request.version? with
  | none => pure []
  | some version =>
    Run.mapError .versionFile (config.versionFiles.writeVersion root version request.dryRun)

/-- Announces a release in the manifests of the selected targets, then in the version files. -/
def announce (root : String) (config : Config) (request : Request) (now : Instant) :
    Run Fault Report := do
  let targets ← request.selector.targets.mapM (announceTarget root config request now)
  let versionFiles ← announceVersion root config request
  return ⟨targets, versionFiles⟩

end UpdateFeed.Announcement
