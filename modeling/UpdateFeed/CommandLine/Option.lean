import UpdateFeed.Log.Basic

/-!
# Options of the command line

The switches that the program knows, how each is written, and what a command line chooses.

- `ofLongName?_longName?`: a long name leads back to its switch.
-/

namespace UpdateFeed.CommandLine

/-! ## §1 Switches -/

/-- An option of the command line. -/
inductive Switch where
  | target
  | version
  | notes
  | signature
  | dryRun
  | config
  | directory
  | verbose
  | logLevel
  | help
  deriving DecidableEq, Repr

namespace Switch

/-- Every switch, in the order of the help text. -/
def all : List Switch :=
  [.target, .version, .notes, .signature, .dryRun, .config, .directory, .verbose, .logLevel, .help]

/-- The name behind two dashes. -/
def longName? : Switch → Option String
  | .target => some "target"
  | .version => some "version"
  | .notes => some "notes"
  | .signature => some "signature"
  | .dryRun => some "dry-run"
  | .config => some "config"
  | .directory => none
  | .verbose => some "verbose"
  | .logLevel => some "log-level"
  | .help => some "help"

/-- The letter behind one dash. -/
def letter? : Switch → Option Char
  | .directory => some 'C'
  | .verbose => some 'v'
  | .help => some 'h'
  | _ => none

/-- The name of the value of a switch that takes one. -/
def valueName? : Switch → Option String
  | .target => some "TARGET"
  | .version => some "VERSION"
  | .notes => some "NOTES"
  | .config => some "PATH"
  | .directory => some "DIRECTORY"
  | .logLevel => some "LEVEL"
  | _ => none

/-- Whether a switch takes a value. -/
def takesValue (switch : Switch) : Bool := switch.valueName?.isSome

/-- The switch with a long name. -/
def ofLongName? (name : String) : Option Switch :=
  all.find? (·.longName? == some name)

/-- A long name leads back to its switch, so no two switches share one. -/
theorem ofLongName?_longName? {switch : Switch} {name : String}
    (h : switch.longName? = some name) : ofLongName? name = some switch := by
  cases switch <;> cases h <;> rfl

/-- The switch with a letter. -/
def ofLetter? (letter : Char) : Option Switch :=
  all.find? (·.letter? == some letter)

/-- A switch as messages name it. -/
def label (switch : Switch) : String :=
  let name :=
    match switch.longName?, switch.letter? with
    | some name, _ => "--" ++ name
    | none, some letter => "-" ++ letter.toString
    | none, none => ""
  match switch.valueName? with
  | some value => name ++ " <" ++ value ++ ">"
  | none => if switch = .verbose then name ++ "..." else name

end Switch

/-! ## §2 Choices -/

/-- What a command line chooses. -/
structure Choices where
  target? : Option String
  version? : Option String
  notes? : Option String
  /-- Whether each target has to have exactly one signature. -/
  requireSignature : Bool
  dryRun : Bool
  config? : Option String
  directory? : Option String
  /-- How often more detail of the log is asked for, up to 255. -/
  verbosity : Nat
  logLevel? : Option Log.Level
  deriving DecidableEq, Repr

namespace Choices

/-- The version of the release; an empty one counts as none. -/
def givenVersion? (choices : Choices) : Option String :=
  choices.version?.filter (· ≠ "")

/-- The notes of the release; empty ones count as none. -/
def givenNotes? (choices : Choices) : Option String :=
  choices.notes?.filter (· ≠ "")

end Choices

/-- The log level that a command line asks for: the named one, else `info` for one request for
more detail and `debug` for several. -/
def requestedLevel? (verbosity : Nat) (named? : Option Log.Level) : Option Log.Level :=
  match named?, verbosity with
  | some level, _ => some level
  | none, 0 => none
  | none, 1 => some .info
  | none, _ + 2 => some .debug

/-- The log level that the choices ask for. -/
def Choices.logLevel (choices : Choices) : Option Log.Level :=
  requestedLevel? choices.verbosity choices.logLevel?

end UpdateFeed.CommandLine
