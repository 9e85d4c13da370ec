import UpdateFeed.CommandLine.Help
import UpdateFeed.CommandLine.Reader
import UpdateFeed.Log.Line
import UpdateFeed.Announcement

/-!
# The program

A call of the program has arguments, the value of the variable that filters its log, and the time.
It changes a file system, prints manifests or a help text, writes log lines, and ends with an exit
code: 0 for success, 1 for a target that is missing or unknown, 2 for a command line that cannot
be read, and 255 for every other error.
-/

namespace UpdateFeed.Program

/-! ## §1 Calls and endings -/

/-- What the program is called with. -/
structure Call where
  arguments : List String
  /-- The value of the environment variable with the log filter, if it is set. -/
  logVariable? : Option String
  now : Instant
  /-- Whether the log goes to a terminal. -/
  terminal : Bool
  deriving Repr

/-- How a call ends. -/
structure Ending where
  exitCode : Nat
  files : FileSystem
  output : List UInt8
  log : String
  deriving Inhabited

/-- Exit code of a call without errors. -/
def success : Nat := 0

/-- Exit code for a target that is missing or unknown. -/
def badTarget : Nat := 1

/-- Exit code for a command line that cannot be read. -/
def badCommandLine : Nat := 2

/-- Exit code for every other error. -/
def failure : Nat := 255

/-! ## §2 Log -/

/-- The filter of a call: the level of the command line, else that of the environment, else
warnings. -/
def filterFor (level? : Option Log.Level) (environment? : Option String) : Log.Filter :=
  match level? with
  | some level => Log.Filter.ofLevel level
  | none => (environment?.bind Log.Filter.ofText?).getD (Log.Filter.ofLevel .warn)

/-- Reports an event of the program itself. -/
def note (level : Log.Level) (message : String) : Run Nat Unit :=
  Run.report level .program message

/-- Reports an error and ends with an exit code. -/
def fail {α : Type} (exitCode : Nat) (message : String) : Run Nat α := do
  note .error message
  throw exitCode

/-- Goes on with a result, or ends with the message of its error. -/
def orFail {ε α : Type} (message : ε → String) (result : Except ε α) : Run Nat α :=
  match result with
  | .ok value => pure value
  | .error error => fail failure (message error)

/-! ## §3 Steps -/

/-- The selector of the command line. -/
def chooseSelector (choices : CommandLine.Choices) : Run Nat Selector :=
  match choices.target?.bind Selector.ofName? with
  | some selector => pure selector
  | none => fail badTarget Selector.invalidMessage

/-- Enters the directory of the command line. -/
def enterDirectory (choices : CommandLine.Choices) : Run Nat Unit :=
  match choices.directory? with
  | none => pure ()
  | some directory => do
    let entered := (← Run.files).enter directory
    Run.setFiles (← orFail
      (fun fault => "Failed to change directory to " ++ directory ++ ": " ++ fault.message) entered)

/-- What the command line asks for. -/
def requestOf (choices : CommandLine.Choices) (selector : Selector) : Announcement.Request :=
  { selector
    version? := choices.givenVersion?
    notes? := choices.givenNotes?
    strictness := if choices.requireSignature then .strict else .lenient
    dryRun := choices.dryRun }

/-- What the log says about a finished announcement. -/
def summary (request : Announcement.Request) (report : Announcement.Report) : List String :=
  let dry := if request.dryRun then ["DRY RUN - no files were modified"] else []
  let signed := (report.targets.filter (·.signature?.isSome)).length
  let total :=
    "Updated " ++ toString report.targets.length ++ " manifest(s), " ++ toString signed
      ++ " with a new signature"
  let manifests :=
    report.targets.map fun entry => "  " ++ entry.target.name ++ ": " ++ entry.manifest
  let versionFiles :=
    match report.versionFiles with
    | [] => []
    | paths =>
      ("Updated " ++ toString paths.length ++ " metadata files:") :: paths.map ("  " ++ ·)
  dry ++ total :: manifests ++ versionFiles

/-- The root of the project that the program works on. -/
def root : String := "."

/-- Does what the command line asks for. -/
def perform (choices : CommandLine.Choices) (now : Instant) : Run Nat Unit := do
  let selector ← chooseSelector choices
  enterDirectory choices
  let config ← orFail ConfigFault.message (Config.ofProject (← Run.files) root choices.config?)
  let request := requestOf choices selector
  let announced ← Run.attempt (Announcement.announce root config request now)
  let report ← orFail Announcement.Fault.message announced
  Run.reportAll ((summary request report).map fun message => ⟨.info, .program, message⟩)

/-! ## §4 The program -/

/-- What is printed behind a mistake in the command line. -/
def usageHint : String :=
  "\n\n" ++ CommandLine.usage ++ "\n\nFor more information, try '--help'.\n"

/-- Runs the program on a file system. -/
def run (files : FileSystem) (call : Call) : Ending :=
  match CommandLine.read call.arguments with
  | .error (.help long) => ⟨success, files, utf8Bytes (CommandLine.helpText long), ""⟩
  | .error (.mistake mistake) =>
    ⟨badCommandLine, files, [], mistake.message ++ usageHint⟩
  | .ok choices =>
    let (result, session) := (perform choices call.now).run.run ⟨files, ⟨none, []⟩, []⟩
    let exitCode :=
      match result with
      | .ok () => success
      | .error exitCode => exitCode
    let filter := filterFor choices.logLevel call.logVariable?
    { exitCode
      files := session.files
      output := session.output.written
      log := Log.render filter call.terminal session.events }

end UpdateFeed.Program
