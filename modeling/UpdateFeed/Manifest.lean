import UpdateFeed.Calendar
import UpdateFeed.Document

/-!
# Update manifests

A manifest is the JSON document that an application's updater polls.  It announces a release by
its version, notes and publication date, and under `platforms` a signature and an address for each
platform.  Edits change single members; platforms are never added.
-/

namespace UpdateFeed

/-- A document that is used as a manifest. -/
structure Manifest where
  document : Document
  deriving Inhabited

/-- Why a manifest cannot be read, edited or written. -/
inductive ManifestFault where
  | document (fault : DocumentFault)
  /-- The manifest at the path does not list the platform. -/
  | unlistedPlatform (path platform : String)
  deriving DecidableEq, Repr

/-- The wording of a fault. -/
def ManifestFault.message : ManifestFault → String
  | .document fault => fault.message
  | .unlistedPlatform path platform =>
    path ++ ": platform " ++ platform ++ " is not listed under \"platforms\""

namespace Manifest

/-! ## §1 Reading -/

/-- The manifest of a file. -/
def ofFile (files : FileSystem) (path : String) : Except ManifestFault Manifest :=
  match Document.ofFile files path with
  | .ok document => .ok ⟨document⟩
  | .error fault => .error (.document fault)

/-- The announced version, if it is a text. -/
def version? (manifest : Manifest) : Option String :=
  (manifest.document.root.member? "version").bind Json.text?

/-- The text of a manifest. -/
def render (manifest : Manifest) : String :=
  manifest.document.render

/-! ## §2 Edits -/

/-- Sets a member of the whole manifest. -/
def withMember (manifest : Manifest) (field text : String) : Except ManifestFault Manifest :=
  match manifest.document.putString [] field text with
  | .ok document => .ok ⟨document⟩
  | .error fault => .error (.document fault)

/-- Sets a member of a platform that the manifest lists. -/
def withPlatformMember (manifest : Manifest) (platform field text : String) :
    Except ManifestFault Manifest :=
  match manifest.document.putString ["platforms", platform] field text with
  | .ok document => .ok ⟨document⟩
  | .error (.address path (.noMember [_, _])) => .error (.unlistedPlatform path platform)
  | .error fault => .error (.document fault)

/-- Announces a version, with `v` in front. -/
def withVersion (manifest : Manifest) (version : String) : Except ManifestFault Manifest :=
  manifest.withMember "version" ("v" ++ version)

/-- Sets the release notes. -/
def withNotes (manifest : Manifest) (notes : String) : Except ManifestFault Manifest :=
  manifest.withMember "notes" notes

/-- Sets the publication date. -/
def withDate (manifest : Manifest) (now : Instant) : Except ManifestFault Manifest :=
  manifest.withMember "pub_date" now.timestamp

/-- Sets the signature of a platform. -/
def withSignature (manifest : Manifest) (platform signature : String) :
    Except ManifestFault Manifest :=
  manifest.withPlatformMember platform "signature" signature

/-- Sets the download address of a platform. -/
def withAddress (manifest : Manifest) (platform url : String) : Except ManifestFault Manifest :=
  manifest.withPlatformMember platform "url" url

/-! ## §3 Writing -/

/-- Writes a manifest back to its file. -/
def save (manifest : Manifest) (files : FileSystem) : Except ManifestFault FileSystem :=
  (manifest.document.save files).mapError .document

end Manifest

end UpdateFeed
