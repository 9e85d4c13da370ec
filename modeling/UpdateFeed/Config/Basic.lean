import UpdateFeed.Config.Overrides
import UpdateFeed.FileTree.Lookup
import UpdateFeed.Target

/-!
# Configurations

A configuration has settings for each target and names the version files.  It is the standard one,
changed by the overrides of a configuration file: the file that is named, or `manifest-sync.toml`
in the project's root if that is a file.

Overrides of targets are applied in the order of the names of the targets, whatever their order in
the file.

- `settings_withSettings`: what changing one target does to the others.
-/

namespace UpdateFeed

/-! ## §1 Configurations -/

/-- The files that carry the version besides the manifests, by their paths. -/
structure VersionFiles where
  /-- The file with `version` at the top. -/
  packageJson : String
  /-- The file with `version` below `package`. -/
  packagingConfig : String
  deriving DecidableEq, Repr, Inhabited

/-- Settings for every target, and the version files. -/
structure Config where
  darwin : TargetSettings
  linux : TargetSettings
  windows : TargetSettings
  versionFiles : VersionFiles
  deriving DecidableEq, Repr, Inhabited

namespace Config

/-- The settings of a target. -/
def settings (config : Config) : Target → TargetSettings
  | .darwin => config.darwin
  | .linux => config.linux
  | .windows => config.windows

/-- Changes the settings of a target. -/
def withSettings (config : Config) (target : Target) (settings : TargetSettings) : Config :=
  match target with
  | .darwin => { config with darwin := settings }
  | .linux => { config with linux := settings }
  | .windows => { config with windows := settings }

/-- Only the target that is changed has other settings. -/
theorem settings_withSettings (config : Config) (target other : Target)
    (changed : TargetSettings) :
    (config.withSettings target changed).settings other =
      if other = target then changed else config.settings other := by
  cases target <;> cases other <;> rfl

/-- The configuration without a file. -/
def standard : Config :=
  { darwin := .standard .darwin
    linux := .standard .linux
    windows := .standard .windows
    versionFiles := ⟨"package.json", "src-tauri/tauri.conf.json"⟩ }

end Config

/-! ## §2 Faults -/

/-- Why there is no configuration. -/
inductive ConfigFault where
  | unreadable (path : String) (fault : FileFault)
  /-- The text at the path is no TOML, or gives no overrides. -/
  | invalid (path : String) (fault? : Option Overrides.Fault)
  | noSuchTarget (name : String)
  | templateWithoutPlaceholder (target : Target)
  | emptyPlatforms (target : Target)
  deriving DecidableEq, Repr

namespace ConfigFault

/-- The wording of a fault, without the details of a text that cannot be read. -/
def headline : ConfigFault → String
  | .unreadable path fault => "IO error reading config " ++ path ++ ": " ++ fault.message
  | .invalid path _ => "TOML parse error in " ++ path
  | .noSuchTarget name =>
    "Unknown target " ++ Text.quoted name ++ " in config (expected darwin, linux or windows)"
  | .templateWithoutPlaceholder target =>
    "URL template for " ++ target.name ++ " does not contain " ++ Template.placeholder
  | .emptyPlatforms target => "Platform list for " ++ target.name ++ " is empty"

/-- What is wrong with the settings of a text. -/
def detail? : ConfigFault → Option String
  | .invalid _ fault? => fault?.map Overrides.Fault.message
  | _ => none

/-- The wording of a fault. -/
def message (fault : ConfigFault) : String :=
  match fault with
  | .invalid _ fault? =>
    fault.headline ++ ": " ++ (fault?.map Overrides.Fault.message).getD "invalid document"
  | _ => fault.headline

end ConfigFault

/-! ## §3 Overriding -/

namespace Config

/-- The settings of a target with overrides. -/
def overrideSettings (target : Target) (settings : TargetSettings) (overrides : SettingsOverrides) :
    Except ConfigFault TargetSettings :=
  if overrides.addressTemplate?.any (!Template.hasPlaceholder ·) then
    .error (.templateWithoutPlaceholder target)
  else if overrides.platforms? = some [] then .error (.emptyPlatforms target)
  else
    .ok
      { manifest := overrides.manifest?.getD settings.manifest
        signaturePattern := overrides.signaturePattern?.getD settings.signaturePattern
        addressTemplate := overrides.addressTemplate?.getD settings.addressTemplate
        platforms := overrides.platforms?.getD settings.platforms }

/-- Overrides the settings of one target. -/
def overrideTarget (config : Config) (entry : String × SettingsOverrides) :
    Except ConfigFault Config :=
  match Target.ofName? entry.1 with
  | none => .error (.noSuchTarget entry.1)
  | some target =>
    (overrideSettings target (config.settings target) entry.2).map (config.withSettings target)

/-- Overrides the paths of the version files. -/
def overrideVersionFiles (files : VersionFiles) (overrides : VersionFilesOverrides) :
    VersionFiles :=
  { packageJson := overrides.packageJson?.getD files.packageJson
    packagingConfig := overrides.packagingConfig?.getD files.packagingConfig }

/-- Applies overrides, those of targets in the order of their names. -/
def override (config : Config) (overrides : Overrides) : Except ConfigFault Config := do
  let ordered := overrides.targets.mergeSort fun a b => !decide (b.1 < a.1)
  let config ← ordered.foldlM overrideTarget config
  let versionFiles := overrideVersionFiles config.versionFiles overrides.versionFiles
  return { config with versionFiles }

/-! ## §4 Files -/

/-- Reads a configuration from a text. -/
def ofText (path content : String) : Except ConfigFault Config :=
  match Toml.parse? content with
  | none => .error (.invalid path none)
  | some entries =>
    match Overrides.decode entries with
    | .error fault => .error (.invalid path fault)
    | .ok overrides => standard.override overrides

/-- Reads the configuration of a file. -/
def ofFile (files : FileSystem) (path : String) : Except ConfigFault Config :=
  match files.readText path with
  | .error fault => .error (.unreadable path fault)
  | .ok content => ofText path content

/-- The name of the configuration file in a project's root. -/
def fileName : String := "manifest-sync.toml"

/-- The configuration of a project: that of the named file, else that of the file in the root, else
the standard one. -/
def ofProject (files : FileSystem) (root : String) (named? : Option String) :
    Except ConfigFault Config :=
  match named? with
  | some path => ofFile files path
  | none =>
    let path := Path.join root fileName
    if files.isFile path then ofFile files path else .ok standard

end Config

end UpdateFeed
