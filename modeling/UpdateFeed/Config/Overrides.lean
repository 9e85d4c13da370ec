import UpdateFeed.Toml.Document

/-!
# Overrides in a configuration file

A configuration file overrides settings of targets and the paths of the version files.  Every key
may be left out.  A group of settings may also be given as an array of all its settings in order,
of which further items are passed over.

Settings are checked in the order of the text, and the first fault is reported.
-/

namespace UpdateFeed

/-! ## §1 Overrides -/

/-- Settings of one target that replace others. -/
structure SettingsOverrides where
  manifest? : Option String
  signaturePattern? : Option String
  addressTemplate? : Option String
  platforms? : Option (List String)
  deriving DecidableEq, Repr, Inhabited

/-- Paths of version files that replace others. -/
structure VersionFilesOverrides where
  packageJson? : Option String
  packagingConfig? : Option String
  deriving DecidableEq, Repr, Inhabited

/-- What a configuration file overrides. -/
structure Overrides where
  /-- Overrides by the name of their target, in the order of the text. -/
  targets : List (String × SettingsOverrides)
  versionFiles : VersionFilesOverrides
  deriving DecidableEq, Repr, Inhabited

namespace Overrides

/-! ## §2 Faults -/

/-- Why a configuration text gives no overrides. -/
inductive Fault where
  | unknownField (name : String) (known : List String)
  /-- A value is described by its type, and something else is expected. -/
  | wrongType (found expected : String)
  /-- An array of settings has only so many items. -/
  | tooShort (length : Nat) (expected : String)
  deriving DecidableEq, Repr

/-- A name in backticks. -/
def ticked (name : String) : String := "`" ++ name ++ "`"

/-- The wording of a fault. -/
def Fault.message : Fault → String
  | .unknownField name known =>
    let expected :=
      match known with
      | [a, b] => ticked a ++ " or " ++ ticked b
      | names => "one of " ++ ", ".intercalate (names.map ticked)
    "unknown field " ++ ticked name ++ ", expected " ++ expected
  | .wrongType found expected => "invalid type: " ++ found ++ ", expected " ++ expected
  | .tooShort length expected => "invalid length " ++ toString length ++ ", expected " ++ expected

/-! ## §3 Single settings -/

/-- A text. -/
def decodeText (expected : String) : Toml.Value → Except Fault String
  | .string text => .ok text
  | value => .error (.wrongType value.description expected)

/-- A path. -/
def decodePath : Toml.Value → Except Fault String := decodeText "path string"

/-- A list of texts. -/
def decodeTexts : Toml.Value → Except Fault (List String)
  | .array items => items.mapM (decodeText "a string")
  | value => .error (.wrongType value.description "a sequence")

/-- The key under which a moment shows itself as a table. -/
def momentKey : String := "$__toml_private_datetime"

/-- The item of an array of settings at an index. -/
def item (items : List Toml.Value) (index : Nat) (expected : String) : Except Fault Toml.Value :=
  (items[index]?).elim (.error (.tooShort index expected)) .ok

/-! ## §4 Groups of settings -/

/-- The keys of the settings of a target. -/
def settingKeys : List String := ["manifest", "signature", "url", "platforms"]

/-- Adds one setting of a target. -/
def decodeSetting (overrides : SettingsOverrides) (entry : String × Toml.Value) :
    Except Fault SettingsOverrides :=
  match entry with
  | ("manifest", value) => (decodePath value).map fun text => { overrides with manifest? := text }
  | ("signature", value) =>
    (decodeText "a string" value).map fun text => { overrides with signaturePattern? := text }
  | ("url", value) =>
    (decodeText "a string" value).map fun text => { overrides with addressTemplate? := text }
  | ("platforms", value) =>
    (decodeTexts value).map fun texts => { overrides with platforms? := texts }
  | (name, _) => .error (.unknownField name settingKeys)

/-- The settings of a target. -/
def decodeSettings : Toml.Value → Except Fault SettingsOverrides
  | .table entries => entries.foldlM decodeSetting default
  | .array items => do
    let expected := "struct TargetOverrides with 4 elements"
    let manifest ← decodePath (← item items 0 expected)
    let signature ← decodeText "a string" (← item items 1 expected)
    let url ← decodeText "a string" (← item items 2 expected)
    let platforms ← decodeTexts (← item items 3 expected)
    return ⟨manifest, signature, url, platforms⟩
  | .moment _ => .error (.unknownField momentKey settingKeys)
  | value => .error (.wrongType value.description "struct TargetOverrides")

/-- The settings of all targets. -/
def decodeTargets : Toml.Value → Except Fault (List (String × SettingsOverrides))
  | .table entries => entries.mapM fun (name, value) => (decodeSettings value).map (name, ·)
  | .moment text => (decodeSettings (.string text)).map fun overrides => [(momentKey, overrides)]
  | value => .error (.wrongType value.description "a map")

/-- The keys of the version files. -/
def versionFileKeys : List String := ["package_json", "packaging_config"]

/-- Adds the path of one version file. -/
def decodeVersionFile (overrides : VersionFilesOverrides) (entry : String × Toml.Value) :
    Except Fault VersionFilesOverrides :=
  match entry with
  | ("package_json", value) =>
    (decodePath value).map fun text => { overrides with packageJson? := text }
  | ("packaging_config", value) =>
    (decodePath value).map fun text => { overrides with packagingConfig? := text }
  | (name, _) => .error (.unknownField name versionFileKeys)

/-- The paths of the version files. -/
def decodeVersionFiles : Toml.Value → Except Fault VersionFilesOverrides
  | .table entries => entries.foldlM decodeVersionFile default
  | .array items => do
    let expected := "struct MetadataOverrides with 2 elements"
    let packageJson ← decodePath (← item items 0 expected)
    let packagingConfig ← decodePath (← item items 1 expected)
    return ⟨packageJson, packagingConfig⟩
  | .moment _ => .error (.unknownField momentKey versionFileKeys)
  | value => .error (.wrongType value.description "struct MetadataOverrides")

/-- Adds one entry of a configuration file. -/
def decodeEntry (overrides : Overrides) (entry : String × Toml.Value) : Except Fault Overrides :=
  match entry with
  | ("targets", value) => (decodeTargets value).map fun targets => { overrides with targets }
  | ("metadata", value) =>
    (decodeVersionFiles value).map fun versionFiles => { overrides with versionFiles }
  | (name, _) => .error (.unknownField name ["targets", "metadata"])

/-- The overrides of a configuration file. -/
def decode (entries : List (String × Toml.Value)) : Except Fault Overrides :=
  entries.foldlM decodeEntry default

end Overrides

end UpdateFeed
