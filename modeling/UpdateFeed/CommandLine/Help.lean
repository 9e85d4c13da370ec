import UpdateFeed.CommandLine.Option

/-!
# Help texts

The short text lists every switch on one line, its description in a column of its own.  The long
one opens with a description of the program and gives each switch a line and an indented
paragraph.
-/

namespace UpdateFeed.CommandLine

/-! ## §1 Descriptions -/

/-- What the program does, in one line. -/
def summary : String := "Patch desktop auto-update manifests for a release"

/-- What a switch does. -/
def Switch.description : Switch → String
  | .target => "Manifest(s) to update: linux, darwin, windows or all"
  | .version => "Release version (without the leading v); rewrites URLs and version fields"
  | .notes => "Release notes"
  | .signature => "Require the signature glob to match exactly one file"
  | .dryRun => "Print the updated manifests without writing any file"
  | .config =>
    "Config file overriding the built-in target table [default: manifest-sync.toml if present]"
  | .directory => "Change to DIRECTORY before doing anything"
  | .verbose => "Increase log verbosity (-v info, -vv debug). Takes precedence over RUST_LOG"
  | .logLevel => "Set the log level explicitly. Takes precedence over RUST_LOG"
  | .help => "Print help"

/-- The values of a switch that takes only some. -/
def Switch.possibleValues? : Switch → Option String
  | .logLevel =>
    some ("[possible values: " ++ ", ".intercalate (Log.Level.all.map Log.Level.name) ++ "]")
  | _ => none

/-- The forms of a switch, as the help texts list them. -/
def Switch.head (switch : Switch) : String :=
  match switch.letter?, switch.longName? with
  | some letter, some _ => "  -" ++ letter.toString ++ ", " ++ switch.label
  | some _, none => "  " ++ switch.label
  | none, _ => "      " ++ switch.label

/-- How the program is called. -/
def usage : String := "Usage: manifest-sync [OPTIONS]"

/-! ## §2 Short text -/

/-- The width of the column of the switches. -/
def headWidth : Nat := 27

/-- A switch in the short text. -/
def Switch.shortLine (switch : Switch) : String :=
  let padding := String.ofList (List.replicate (headWidth - switch.head.length) ' ')
  let values := (switch.possibleValues?.map (" " ++ ·)).getD ""
  let hint := if switch = .help then " (see more with '--help')" else ""
  switch.head ++ padding ++ switch.description ++ values ++ hint ++ "\n"

/-- The short help text. -/
def shortHelp : String :=
  summary ++ "\n\n" ++ usage ++ "\n\nOptions:\n" ++ String.join (Switch.all.map Switch.shortLine)

/-! ## §3 Long text -/

/-- The description of the program, line by line. -/
def about : List String :=
  [
    "Patch desktop auto-update manifests for a release",
    "",
    "Each supported platform family (darwin, linux, windows) has a JSON manifest",
    "that the application's updater polls. manifest-sync loads the manifest for the",
    "selected target(s), fills in what changed for this release and writes it back",
    "in place, printing the result to stdout.",
    "",
    "WHAT GETS UPDATED:",
    "",
    "  pub_date",
    "    Always set to the current UTC time (YYYY-MM-DDTHH:MM:SSZ).",
    "",
    "  platforms.<id>.signature",
    "    Set when the target's signature glob matches exactly one file. The file",
    "    contents are used verbatim. With no match, or several, the signature is",
    "    left as is and a warning is logged; pass --signature to make that fatal.",
    "",
    "  platforms.<id>.url and version",
    "    Set when --version is given. The URL comes from the target's template,",
    "    the manifest version becomes v<VERSION>.",
    "",
    "  notes",
    "    Set when --notes is given.",
    "",
    "  package.json and src-tauri/tauri.conf.json",
    "    When --version is given, their version fields are set to VERSION as well.",
    "",
    "OUTPUT:",
    "",
    "  stdout carries only the updated manifests, one JSON document per target.",
    "  Progress such as \"Updating darwin manifest\" is logged to stderr at info",
    "  level (-v) instead of being interleaved with the JSON, so the output can be",
    "  piped to other tools.",
    "",
    "TARGETS:",
    "",
    "  darwin    manifests/update-darwin.json   (darwin-x86_64, darwin-aarch64)",
    "  linux     manifests/update-linux.json    (linux-x86_64)",
    "  windows   manifests/update-windows.json  (windows-x86_64)",
    "  all       all three, in that order",
    "",
    "  Manifests are never given new platform entries: every platform a target",
    "  owns must already be listed in its manifest.",
    "",
    "CONFIGURATION:",
    "",
    "  Paths, signature globs, URL templates and platform lists can be overridden",
    "  in manifest-sync.toml (or the file given with --config). Relative globs,",
    "  with or without a leading ./, resolve against the working directory;",
    "  absolute globs are used as is:",
    "",
    "    [targets.linux]",
    "    signature = \"bundle/appimage/*.AppImage.tar.gz.sig\"",
    "    url = \"https://example.com/download/v\x7bversion\x7d/app.AppImage.tar.gz\"",
    "",
    "    [metadata]",
    "    package_json = \"package.json\"",
    "    packaging_config = \"src-tauri/tauri.conf.json\"",
    "",
    "EXAMPLES:",
    "",
    "  $ manifest-sync --target all --version 1.4.0 --notes \"Bug fixes\"",
    "  $ manifest-sync -C /path/to/repo --target darwin --signature",
    "  $ manifest-sync --target linux --version 1.4.0 --dry-run",
    "",
    "EXIT CODES:",
    "",
    "  0    Success",
    "  1    Invalid or missing --target",
    "  2    Invalid command line",
    "  255  Any other error (missing manifest, invalid JSON, I/O errors, ...)"
  ]

/-- A switch in the long text. -/
def Switch.paragraph (switch : Switch) : String :=
  let indent := "          "
  let values := (switch.possibleValues?.map ("\n" ++ indent ++ "\n" ++ indent ++ ·)).getD ""
  let hint := if switch = .help then " (see a summary with '-h')" else ""
  switch.head ++ "\n" ++ indent ++ switch.description ++ hint ++ values ++ "\n"

/-- The long help text. -/
def longHelp : String :=
  "\n".intercalate about ++ "\n\n" ++ usage ++ "\n\nOptions:\n"
    ++ "\n".intercalate (Switch.all.map Switch.paragraph)

/-- The help text that is asked for. -/
def helpText (long : Bool) : String :=
  if long then longHelp else shortHelp

end UpdateFeed.CommandLine
