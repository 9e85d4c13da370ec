import UpdateFeed.CommandLine.Option
import UpdateFeed.Text.Plain

/-!
# Reading a command line

Arguments are read from left to right.  A switch that takes a value and stands without one *waits*:
the next argument that is no switch becomes its value.  A waiting switch is settled, with the
checks of its value, when the next known switch comes or at the end; an argument that the program
does not know is reported without settling it.

Every switch may be given once, but `-v` and `--verbose` count.  A log level and a count exclude
each other, which is noticed at the end; the one that was given first is named first, and a
repeated count moves to its last place.
-/

namespace UpdateFeed.CommandLine

/-! ## §1 Refusals -/

/-- What is wrong with a command line. -/
inductive Mistake where
  | unknown (argument : String)
  | missingValue (switch : Switch)
  | badValue (switch : Switch) (value : String)
  | surplusValue (switch : Switch) (value : String)
  | repeated (switch : Switch)
  | exclusive (first second : Switch)
  deriving DecidableEq, Repr

/-- The wording of a mistake.  What is quoted from the command line is made plain. -/
def Mistake.message : Mistake → String
  | .unknown argument => "error: unexpected argument '" ++ Text.plain argument ++ "' found"
  | .missingValue switch =>
    "error: a value is required for '" ++ switch.label ++ "' but none was supplied"
  | .badValue switch value =>
    "error: invalid value '" ++ Text.plain value ++ "' for '" ++ switch.label ++ "'"
  | .surplusValue switch value =>
    "error: unexpected value '" ++ Text.plain value ++ "' for '" ++ switch.label
      ++ "' found; no more were expected"
  | .repeated switch =>
    "error: the argument '" ++ switch.label ++ "' cannot be used multiple times"
  | .exclusive first second =>
    "error: the argument '" ++ first.label ++ "' cannot be used with '" ++ second.label ++ "'"

/-- Why a command line gives no choices. -/
inductive Refusal where
  /-- It asks for the long or the short help text. -/
  | help (long : Bool)
  | mistake (mistake : Mistake)
  deriving DecidableEq, Repr

/-! ## §2 Progress -/

/-- What is read of a command line. -/
structure Progress where
  /-- The switches that are settled with their values, in order; the value of a switch that takes
  none is empty. -/
  given : List (Switch × String)
  verbosity : Nat
  /-- The switch that waits, and the value that it has. -/
  waiting? : Option (Switch × Option String)
  /-- Whether `--` was read, behind which no switch is looked for. -/
  plain : Bool
  deriving DecidableEq, Repr

namespace Progress

/-- The start of a command line. -/
def start : Progress := ⟨[], 0, none, false⟩

/-- Whether a switch takes a value. -/
def valueMistake? (switch : Switch) (value : String) : Option Mistake :=
  match switch with
  | .config | .directory => if value = "" then some (.missingValue switch) else none
  | .logLevel =>
    if value = "" then some (.missingValue switch)
    else if (Log.Level.ofName? value).isNone then some (.badValue switch value)
    else none
  | _ => none

/-- Settles a switch with its value. -/
def store (progress : Progress) (switch : Switch) (value : String) : Except Refusal Progress :=
  if (progress.given.lookup switch).isSome then .error (.mistake (.repeated switch))
  else
    match valueMistake? switch value with
    | some mistake => .error (.mistake mistake)
    | none => .ok { progress with given := progress.given ++ [(switch, value)] }

/-- Settles the switch that waits. -/
def settle (progress : Progress) : Except Refusal Progress :=
  match progress.waiting? with
  | none => .ok progress
  | some (switch, none) => .error (.mistake (.missingValue switch))
  | some (switch, some value) => { progress with waiting? := none }.store switch value

/-- Counts one more request for detail. -/
def countVerbose (progress : Progress) : Progress :=
  { progress with
    given := progress.given.filter (·.1 ≠ .verbose) ++ [(.verbose, "")]
    verbosity := min 255 (progress.verbosity + 1) }

/-- Takes a switch without a value. -/
def takeFlag (progress : Progress) (switch : Switch) (long : Bool) : Except Refusal Progress := do
  let progress ← progress.settle
  match switch with
  | .help => .error (.help long)
  | .verbose => .ok progress.countVerbose
  | switch => progress.store switch ""

/-- Takes a switch whose value, if there is one, stands in the same argument. -/
def takeValued (progress : Progress) (switch : Switch) (value? : Option String) :
    Except Refusal Progress := do
  let progress ← progress.settle
  match value? with
  | some value => progress.store switch value
  | none => .ok { progress with waiting? := some (switch, none) }

/-! ## §3 Arguments -/

/-- An argument that starts with two dashes, without them. -/
def takeLong (progress : Progress) (text : List Char) : Except Refusal Progress :=
  let name := text.takeWhile (· ≠ '=')
  let value? :=
    if name.length < text.length then some (String.ofList (text.drop (name.length + 1))) else none
  match Switch.ofLongName? (String.ofList name) with
  | none => .error (.mistake (.unknown ("--" ++ String.ofList name)))
  | some switch =>
    if switch.takesValue then progress.takeValued switch value?
    else
      match value? with
      | some value => .error (.mistake (.surplusValue switch value))
      | none => progress.takeFlag switch true

/-- The letters behind one dash.  A letter that takes a value has the rest of the argument for
it, less an equals sign. -/
def takeLetters (progress : Progress) : List Char → Except Refusal Progress
  | [] => .ok progress
  | letter :: rest =>
    match Switch.ofLetter? letter with
    | none => .error (.mistake (.unknown ("-" ++ letter.toString)))
    | some switch =>
      if switch.takesValue then
        -- what is left of the argument is the value; if nothing is, the next argument is
        match rest with
        | [] => progress.takeValued switch none
        | '=' :: value => progress.takeValued switch (some (String.ofList value))
        | value => progress.takeValued switch (some (String.ofList value))
      else
        match progress.takeFlag switch false with
        | .ok progress => takeLetters progress rest
        | .error refusal => .error refusal

/-- An argument that is no switch: the value of the switch that waits for one. -/
def takePlain (progress : Progress) (argument : String) : Except Refusal Progress :=
  match progress.plain, progress.waiting? with
  | false, some (switch, none) => .ok { progress with waiting? := some (switch, some argument) }
  | _, _ => .error (.mistake (.unknown argument))

/-- Reads one argument. -/
def take (progress : Progress) (argument : String) : Except Refusal Progress :=
  if progress.plain then progress.takePlain argument
  else
    -- a dash alone is no switch
    match argument.toList with
    | ['-', '-'] => .ok { progress with plain := true }
    | '-' :: '-' :: text => progress.takeLong text
    | ['-'] => progress.takePlain argument
    | '-' :: letters => progress.takeLetters letters
    | _ => progress.takePlain argument

/-! ## §4 The whole line -/

/-- The choices at the end of a command line. -/
def finish (progress : Progress) : Except Refusal Choices := do
  let progress ← progress.settle
  let exclusive := progress.given.filter fun (switch, _) => switch = .verbose ∨ switch = .logLevel
  match exclusive with
  | (first, _) :: (second, _) :: _ => .error (.mistake (.exclusive first second))
  | _ =>
    return {
      target? := progress.given.lookup .target
      version? := progress.given.lookup .version
      notes? := progress.given.lookup .notes
      requireSignature := (progress.given.lookup .signature).isSome
      dryRun := (progress.given.lookup .dryRun).isSome
      config? := progress.given.lookup .config
      directory? := progress.given.lookup .directory
      verbosity := progress.verbosity
      logLevel? := (progress.given.lookup .logLevel).bind Log.Level.ofName? }

end Progress

/-- Reads a command line. -/
def read (arguments : List String) : Except Refusal Choices := do
  let progress ← arguments.foldlM Progress.take Progress.start
  progress.finish

end UpdateFeed.CommandLine
