import UpdateFeed.Proofs.CommandLine.LogSettings
import UpdateFeed.Proofs.Log.Lines
import UpdateFeed.Proofs.Program

/-!
# How much a call logs

What a call reports is the same whatever its log shows: the filter is applied to the events in the
end, and nothing that the call does depends on it.  So a setting of the log in front of the command
line, or another value of the variable with the log filter, changes what is shown and nothing else.

- `run_of_read`: a call by its choices.
- `log_of_requested`: a level of the command line is all that the log depends on.
- `run_behind`: a call behind settings of the log.
-/

namespace UpdateFeed

/-- Of two levels the one with more detail shows what the other one shows. -/
theorem Log.Filter.allows_of_detail_le {less more : Log.Level} (h : less.detail ≤ more.detail)
    (event : Log.Event) (hshown : (ofLevel less).allows event) : (ofLevel more).allows event := by
  rw [allows_ofLevel_iff] at hshown ⊢
  omega

namespace Program

open Announcement Run
open CommandLine (LogSetting)

/-- Whether two endings differ in their logs at most. -/
structure Ending.SameButLog (first second : Ending) : Prop where
  exitCode : first.exitCode = second.exitCode
  output : first.output = second.output
  files : first.files = second.files

/-- A call with a setting of the log in front of its command line, and with another value of the
variable with the log filter. -/
def Call.behind (setting : LogSetting) (environment? : Option String) (call : Call) : Call :=
  { call with arguments := setting.arguments ++ call.arguments, logVariable? := environment? }

section

variable {files : FileSystem} {call : Call} {choices : CommandLine.Choices}

/-- What a call with choices does, and how its log comes of it. -/
theorem run_of_read (hread : CommandLine.read call.arguments = .ok choices) :
    let performed := exec (perform choices call.now) (startSession files)
    run files call =
      { exitCode := match performed.1 with
          | .ok () => success
          | .error exitCode => exitCode
        files := performed.2.files
        output := performed.2.output.written
        log := Log.render (filterFor choices.logLevel call.logVariable?) call.terminal
          performed.2.events } := by
  intro performed
  unfold run
  rw [hread]
  rfl

/-- With a level on the command line the log does not depend on the variable. -/
theorem log_of_requested (hread : CommandLine.read call.arguments = .ok choices)
    (hlevel : choices.logLevel.isSome) (environment? : Option String) :
    (run files { call with logVariable? := environment? }).log = (run files call).log := by
  obtain ⟨level, hlevel⟩ := Option.isSome_iff_exists.mp hlevel
  have hother : CommandLine.read { call with logVariable? := environment? }.arguments =
      .ok choices := hread
  rw [run_of_read hread, run_of_read hother]
  dsimp only
  rw [hlevel]
  rfl

/-- A call behind a setting does what it does without, and shows its events up to the level of the
setting, if this asks for one. -/
theorem run_behind_eq (hread : CommandLine.read call.arguments = .ok choices)
    (hcount : choices.verbosity = 0) (hlevel : choices.logLevel? = none) (setting : LogSetting)
    (environment? : Option String) :
    run files (call.behind setting environment?) =
      { run files call with
        log := Log.render (filterFor setting.level? environment?) call.terminal
          (exec (perform choices call.now) (startSession files)).2.events } := by
  have hbehind : CommandLine.read (call.behind setting environment?).arguments = .ok
      { choices with verbosity := setting.verbosity, logLevel? := setting.named? } :=
    CommandLine.read_behind hread hcount hlevel setting
  -- the choices about the log play no part in what is done
  rw [run_of_read hbehind, run_of_read hread]
  rfl

/-- A call whose command line says nothing about the log, behind settings of the log.  It has the
same exit code, the same output and the same files; where a level is asked for, the log does not
depend on the variable; and of two settings the one with more detail shows the lines of the other
one, in their order. -/
theorem run_behind (hread : CommandLine.read call.arguments = .ok choices)
    (hcount : choices.verbosity = 0) (hlevel : choices.logLevel? = none) (files : FileSystem) :
    (∀ setting environment?,
      Ending.SameButLog (run files (call.behind setting environment?)) (run files call))
    ∧ (∀ (setting : LogSetting) first? second?, setting.level?.isSome →
      (run files (call.behind setting first?)).log =
        (run files (call.behind setting second?)).log)
    ∧ (∀ (other : Call) chosen environment?, CommandLine.read other.arguments = .ok chosen →
      chosen.logLevel.isSome →
      (run files { other with logVariable? := environment? }).log = (run files other).log)
    ∧ ∀ (less more : LogSetting) (level level' : Log.Level) first? second?,
      less.level? = some level → more.level? = some level' → level.detail ≤ level'.detail →
      (Log.lines (run files (call.behind less first?)).log).Sublist
        (Log.lines (run files (call.behind more second?)).log) := by
  -- of the whole run only the filter of the log reads the setting and the environment
  refine ⟨?_, ?_, ?_, ?_⟩
  · intro setting environment?
    rw [run_behind_eq hread hcount hlevel]
    exact ⟨rfl, rfl, rfl⟩
  · intro setting first? second? hasked
    obtain ⟨level, hasked⟩ := Option.isSome_iff_exists.mp hasked
    rw [run_behind_eq hread hcount hlevel, run_behind_eq hread hcount hlevel, hasked]
    rfl
  · intro other chosen environment? hother hrequested
    exact log_of_requested hother hrequested environment?
  · intro less more level level' first? second? hless hmore hdetail
    rw [run_behind_eq hread hcount hlevel, run_behind_eq hread hcount hlevel, hless, hmore]
    apply Log.lines_render_sublist
    exact Log.Filter.allows_of_detail_le hdetail

end

/-- A call that fails at a manifest that is not there: with errors only, and with one request for
detail. -/
theorem run_behind_sample :
    let call : Call := ⟨["--target", "linux"], some "trace", ⟨0, 0⟩, false⟩
    let brief := run bareFiles (call.behind (.spaced .error) none)
    let full := run bareFiles (call.behind (.counted 1) (some "off"))
    (run bareFiles call).exitCode = 255
      ∧ brief.SameButLog (run bareFiles call) ∧ full.SameButLog (run bareFiles call)
      ∧ (Log.lines brief.log).Sublist (Log.lines full.log)
      ∧ Log.lines full.log =
        ["INFO: Updating linux manifest", "ERROR: Manifest error: IO error on "
          ++ "./manifests/update-linux.json: No such file or directory (os error 2)"] := by
  intro call brief full
  obtain ⟨choices, hread, hcount, hlevel⟩ : ∃ choices,
      CommandLine.read call.arguments = .ok choices ∧ choices.verbosity = 0
        ∧ choices.logLevel? = none := ⟨_, rfl, rfl, rfl⟩
  obtain ⟨hsame, -, -, hlines⟩ := run_behind hread hcount hlevel bareFiles
  have hexit : (run bareFiles call).exitCode = 255 := by decide +kernel
  have hfull : Log.lines full.log =
      ["INFO: Updating linux manifest", "ERROR: Manifest error: IO error on "
        ++ "./manifests/update-linux.json: No such file or directory (os error 2)"] := by
    decide +kernel
  refine ⟨hexit, hsame _ _, hsame _ _, ?_, hfull⟩
  exact hlines (.spaced .error) (.counted 1) .error .info none (some "off") rfl rfl (by decide)

end Program

end UpdateFeed
