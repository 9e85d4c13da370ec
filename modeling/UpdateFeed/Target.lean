import UpdateFeed.Template

/-!
# Targets

The platform families that have an update manifest, what a selector names, and the built-in
settings of each family: where its manifest lies, which glob finds its signature, which template
gives its download address, and which platforms of the manifest belong to it.
-/

namespace UpdateFeed

/-! ## §1 Families and selectors -/

/-- A platform family with a manifest of its own. -/
inductive Target where
  | darwin
  | linux
  | windows
  deriving DecidableEq, Repr, Inhabited

namespace Target

/-- Every family, in the order in which a selection of all of them is processed. -/
def all : List Target := [.darwin, .linux, .windows]

/-- The name of a family in selectors, configuration files and messages. -/
def name : Target → String
  | .darwin => "darwin"
  | .linux => "linux"
  | .windows => "windows"

/-- The place of a family in `Target.all`. -/
def index : Target → Nat
  | .darwin => 0
  | .linux => 1
  | .windows => 2

/-- The family of a given name; names are exact, in lower case. -/
def ofName? (name : String) : Option Target :=
  all.find? (·.name == name)

theorem mem_all (target : Target) : target ∈ all := by
  cases target <;> decide

end Target

/-- What a run updates: one family, or every family. -/
inductive Selector where
  | one (target : Target)
  | all
  deriving DecidableEq, Repr

namespace Selector

/-- Reads a selector: the name of a family, or `all`. -/
def ofName? (name : String) : Option Selector :=
  if name = "all" then some .all else (Target.ofName? name).map .one

/-- The selected families in processing order. -/
def targets : Selector → List Target
  | .one target => [target]
  | .all => Target.all

/-- What is reported when a text is not a selector. -/
def invalidMessage : String :=
  "Invalid target. Specify one of: linux, darwin, windows, all"

end Selector

/-! ## §2 Settings -/

/-- Where the release artifacts and the manifest of one family are. -/
structure TargetSettings where
  /-- Path of the manifest, below the project's root unless absolute. -/
  manifest : String
  /-- Glob that finds the signature file. -/
  signaturePattern : String
  /-- Template of the download address. -/
  addressTemplate : String
  /-- Keys under `platforms` that belong to the family. -/
  platforms : List String
  deriving DecidableEq, Repr, Inhabited

namespace TargetSettings

/-- The download address of a release. -/
def downloadAddress (settings : TargetSettings) (version : String) : String :=
  Template.fill settings.addressTemplate version

private def releases : String :=
  "https://github.com/andrewinci/insulator2/releases/download"

private def bundle : String :=
  "src-tauri/target/release/bundle"

/-- The settings of a family that no configuration file overrides. -/
def standard : Target → TargetSettings
  | .darwin =>
    { manifest := "manifests/update-darwin.json"
      signaturePattern := bundle ++ "/macos/*.app.tar.gz.sig"
      addressTemplate := releases ++ "/v\x7bversion\x7d/Insulator.2.app.tar.gz"
      platforms := ["darwin-x86_64", "darwin-aarch64"] }
  | .linux =>
    { manifest := "manifests/update-linux.json"
      signaturePattern := bundle ++ "/appimage/insulator-*_amd64.AppImage.tar.gz.sig"
      addressTemplate :=
        releases ++ "/v\x7bversion\x7d/insulator-2_\x7bversion\x7d_amd64.AppImage.tar.gz"
      platforms := ["linux-x86_64"] }
  | .windows =>
    { manifest := "manifests/update-windows.json"
      signaturePattern := bundle ++ "/msi/Insulator*.msi.zip.sig"
      addressTemplate :=
        releases ++ "/v\x7bversion\x7d/Insulator_2_\x7bversion\x7d_x64_en-US.msi.zip"
      platforms := ["windows-x86_64"] }

end TargetSettings

end UpdateFeed
