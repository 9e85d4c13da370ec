import UpdateFeed.Program
import UpdateFeed.Proofs.Announcement.Printing

/-!
# How calls end

A call is decided in a fixed order: its command line, the target, the directory, the configuration,
and then the announcement.  The first of these that fails gives the exit code, and before the
announcement nothing is written or printed.

- `Starts`: a call that gets as far as the announcement.
- `exec_perform_of_starts`: what such a call does.
- `run_ending`: the exit code, the output and the files of every call.
-/

namespace UpdateFeed

/-! ## §1 Selectors -/

/-- The texts that are selectors. -/
theorem Selector.ofName?_isSome {name : String} :
    (Selector.ofName? name).isSome ↔ name ∈ ["linux", "darwin", "windows", "all"] := by
  constructor
  · intro h
    unfold Selector.ofName? Target.ofName? at h
    split at h
    · rename_i hname
      simp [hname]
    · rw [Option.isSome_map, List.find?_isSome] at h
      obtain ⟨target, -, hname⟩ := h
      obtain rfl : target.name = name := eq_of_beq hname
      cases target <;> decide
  · intro h
    have hall : ∀ name ∈ ["linux", "darwin", "windows", "all"],
        (Selector.ofName? name).isSome := by
      decide
    exact hall name h

namespace Program

open Announcement Run

/-! ## §2 Courses of calls -/

/-- The selector that the command line names. -/
def selectorOf? (choices : CommandLine.Choices) : Option Selector :=
  choices.target?.bind Selector.ofName?

/-- The files as they are seen from the directory of the command line. -/
def entered (choices : CommandLine.Choices) (files : FileSystem) : Except FileFault FileSystem :=
  choices.directory?.elim (.ok files) files.enter

/-- A call that gets as far as the announcement: its command line can be read and names a target,
its directory can be entered, and there is a configuration. -/
structure Starts (files : FileSystem) (call : Call) (choices : CommandLine.Choices)
    (selector : Selector) (start : FileSystem) (config : Config) : Prop where
  read : CommandLine.read call.arguments = .ok choices
  selected : selectorOf? choices = some selector
  entered : entered choices files = .ok start
  configured : Config.ofProject start root choices.config? = .ok config

/-- The session that an announcement starts from. -/
def startSession (files : FileSystem) : Session := ⟨files, ⟨none, []⟩, []⟩

/-- How a call goes: what decides it, and the exit code, the output and the files in the end. -/
inductive Course (files : FileSystem) (call : Call) : Nat → List UInt8 → FileSystem → Prop
  | helped (long : Bool) (read : CommandLine.read call.arguments = .error (.help long)) :
      Course files call success (utf8Bytes (CommandLine.helpText long)) files
  | misread (mistake : CommandLine.Mistake)
      (read : CommandLine.read call.arguments = .error (.mistake mistake)) :
      Course files call badCommandLine [] files
  | untargeted (choices : CommandLine.Choices)
      (read : CommandLine.read call.arguments = .ok choices)
      (unselected : selectorOf? choices = none) :
      Course files call badTarget [] files
  | unentered (choices : CommandLine.Choices) (selector : Selector) (fault : FileFault)
      (read : CommandLine.read call.arguments = .ok choices)
      (selected : selectorOf? choices = some selector)
      (unentered : entered choices files = .error fault) :
      Course files call failure [] files
  | unconfigured (choices : CommandLine.Choices) (selector : Selector) (start : FileSystem)
      (fault : ConfigFault) (read : CommandLine.read call.arguments = .ok choices)
      (selected : selectorOf? choices = some selector)
      (entered : entered choices files = .ok start)
      (unconfigured : Config.ofProject start root choices.config? = .error fault) :
      Course files call failure [] start
  | failed (choices : CommandLine.Choices) (selector : Selector) (start : FileSystem)
      (config : Config) (fault : Announcement.Fault) (last : Session)
      (starts : Starts files call choices selector start config)
      (announced : exec (announce root config (requestOf choices selector) call.now)
        (startSession start) = (.error fault, last)) :
      Course files call failure last.output.written last.files
  | finished (choices : CommandLine.Choices) (selector : Selector) (start : FileSystem)
      (config : Config) (report : Report) (last : Session)
      (starts : Starts files call choices selector start config)
      (announced : exec (announce root config (requestOf choices selector) call.now)
        (startSession start) = (.ok report, last)) :
      Course files call success last.output.written last.files

section

variable {files : FileSystem} {call : Call} {choices : CommandLine.Choices}

theorem exec_orFail {ε α : Type} (message : ε → String) (result : Except ε α)
    (session : Session) :
    exec (orFail message result) session =
      match result with
      | .ok value => (.ok value, session)
      | .error error =>
        (.error failure, session.reporting [⟨.error, .program, message error⟩]) := by
  cases result <;> rfl

/-- Entering the directory of the command line, or failing to. -/
theorem exec_enterDirectory (choices : CommandLine.Choices) (session : Session) :
    ∃ events, exec (enterDirectory choices) session =
      match entered choices session.files with
      | .ok start => (.ok (), { session with files := start })
      | .error _ => (.error failure, session.reporting events) := by
  unfold enterDirectory entered
  cases choices.directory? with
  | none => exact ⟨[], rfl⟩
  | some directory =>
    dsimp only [Option.elim]
    rw [exec_bind, exec_files]
    dsimp only
    rw [exec_bind, exec_orFail]
    cases session.files.enter directory with
    | error fault => exact ⟨_, rfl⟩
    | ok start => exact ⟨[], rfl⟩

/-- What the command line asks for, done or given up. -/
theorem course_of_choices (hread : CommandLine.read call.arguments = .ok choices) :
    Course files call
      (match (exec (perform choices call.now) (startSession files)).1 with
        | .ok () => success
        | .error exitCode => exitCode)
      (exec (perform choices call.now) (startSession files)).2.output.written
      (exec (perform choices call.now) (startSession files)).2.files := by
  unfold perform chooseSelector
  rw [exec_bind, show choices.target?.bind Selector.ofName? = selectorOf? choices from rfl]
  cases hselected : selectorOf? choices with
  | none => exact .untargeted choices hread hselected
  | some selector =>
    dsimp only
    rw [exec_pure]
    dsimp only
    obtain ⟨events, henter⟩ := exec_enterDirectory choices (startSession files)
    rw [exec_bind, henter]
    cases hentered : entered choices (startSession files).files with
    | error fault => exact .unentered choices selector fault hread hselected hentered
    | ok start =>
      dsimp only
      rw [exec_bind, exec_files]
      dsimp only
      rw [exec_bind, exec_orFail]
      cases hconfig : Config.ofProject start root choices.config? with
      | error fault =>
        exact .unconfigured choices selector start fault hread hselected hentered hconfig
      | ok config =>
        have hstarts : Starts files call choices selector start config :=
          ⟨hread, hselected, hentered, hconfig⟩
        dsimp only
        rw [exec_bind, exec_attempt]
        dsimp only
        rw [exec_bind, exec_orFail]
        -- the announcement starts from the files, and nothing is printed or reported by then
        rcases hannounced : exec (announce root config (requestOf choices selector) call.now)
          (startSession start) with ⟨result, last⟩
        cases result with
        | error fault =>
          have hfailed : exec (announce root config (requestOf choices selector) call.now)
            { startSession files with files := start } = (.error fault, last) := hannounced
          rw [hfailed]
          exact .failed choices selector start config fault last hstarts hannounced
        | ok report =>
          have hfinished : exec (announce root config (requestOf choices selector) call.now)
            { startSession files with files := start } = (.ok report, last) := hannounced
          rw [hfinished]
          exact .finished choices selector start config report last hstarts hannounced

/-- Every call goes one of the ways. -/
theorem course_run (files : FileSystem) (call : Call) :
    Course files call (run files call).exitCode (run files call).output (run files call).files := by
  unfold run
  cases hread : CommandLine.read call.arguments with
  | error refusal =>
    cases refusal with
    | help long => exact .helped long hread
    | mistake mistake => exact .misread mistake hread
  | ok choices => exact course_of_choices hread

/-! ## §3 What the courses have to do with exit codes -/

variable {exitCode : Nat} {output : List UInt8} {after : FileSystem}

/-- A call gets to an announcement in one way only. -/
theorem Starts.unique {selector selector' : Selector} {choices' : CommandLine.Choices}
    {start start' : FileSystem} {config config' : Config}
    (h : Starts files call choices selector start config)
    (h' : Starts files call choices' selector' start' config') :
    choices' = choices ∧ selector' = selector ∧ start' = start ∧ config' = config := by
  obtain rfl := Except.ok.inj (h'.read.symm.trans h.read)
  obtain rfl := Option.some.inj (h'.selected.symm.trans h.selected)
  obtain rfl := Except.ok.inj (h'.entered.symm.trans h.entered)
  obtain rfl := Except.ok.inj (h'.configured.symm.trans h.configured)
  exact ⟨rfl, rfl, rfl, rfl⟩

theorem tree_of_entered {start : FileSystem} (h : entered choices files = .ok start) :
    start.tree = files.tree := by
  unfold entered at h
  cases hdirectory : choices.directory? with
  | none =>
    rw [hdirectory] at h
    obtain rfl := Except.ok.inj h
    rfl
  | some directory =>
    rw [hdirectory] at h
    dsimp only [Option.elim] at h
    unfold FileSystem.enter at h
    split at h
    · cases h
    · split at h
      · obtain rfl := Except.ok.inj h
        rfl
      · cases h

/-- A call names no target when there is none on its command line, or not the name of one. -/
theorem selectorOf?_eq_none_iff : selectorOf? choices = none ↔
    ∀ name ∈ choices.target?, name ∉ ["linux", "darwin", "windows", "all"] := by
  rw [selectorOf?, Option.bind_eq_none_iff]
  refine forall_congr' fun name => forall_congr' fun _ => ?_
  rw [← Selector.ofName?_isSome, Option.not_isSome_iff_eq_none]

namespace Course

theorem eq_badCommandLine_iff (h : Course files call exitCode output after) :
    exitCode = 2 ↔ ∃ mistake, CommandLine.read call.arguments = .error (.mistake mistake) := by
  cases h with
  | helped long read => simp [read, success]
  | misread mistake read => simp [read, badCommandLine]
  | untargeted choices read unselected => simp [read, badTarget]
  | unentered choices selector fault read selected unentered => simp [read, failure]
  | unconfigured choices selector start fault read selected entered unconfigured =>
    simp [read, failure]
  | failed choices selector start config fault last starts announced =>
    simp [starts.read, failure]
  | finished choices selector start config report last starts announced =>
    simp [starts.read, success]

theorem eq_badTarget_iff (h : Course files call exitCode output after) :
    exitCode = 1 ↔ ∃ choices, CommandLine.read call.arguments = .ok choices
      ∧ ∀ name ∈ choices.target?, name ∉ ["linux", "darwin", "windows", "all"] := by
  simp only [← selectorOf?_eq_none_iff]
  cases h with
  | helped long read => simp [read, success]
  | misread mistake read => simp [read, badCommandLine]
  | untargeted choices read unselected => simp [read, badTarget, unselected]
  | unentered choices selector fault read selected unentered => simp [read, failure, selected]
  | unconfigured choices selector start fault read selected entered unconfigured =>
    simp [read, failure, selected]
  | failed choices selector start config fault last starts announced =>
    simp [starts.read, failure, starts.selected]
  | finished choices selector start config report last starts announced =>
    simp [starts.read, success, starts.selected]

/-- A call for help ends with the help text. -/
theorem of_help {long : Bool} (h : Course files call exitCode output after)
    (hread : CommandLine.read call.arguments = .error (.help long)) :
    exitCode = success ∧ output = utf8Bytes (CommandLine.helpText long) := by
  cases h with
  | helped long' read =>
    obtain rfl : long' = long := by simpa using read.symm.trans hread
    exact ⟨rfl, rfl⟩
  | misread mistake read => cases read.symm.trans hread
  | untargeted choices read => cases read.symm.trans hread
  | unentered choices selector fault read => cases read.symm.trans hread
  | unconfigured choices selector start fault read => cases read.symm.trans hread
  | failed choices selector start config fault last starts =>
    cases starts.read.symm.trans hread
  | finished choices selector start config report last starts =>
    cases starts.read.symm.trans hread

/-- A call that gets as far as the announcement ends with what comes of it. -/
theorem of_starts {selector : Selector} {start : FileSystem} {config : Config}
    {report : Report} {last : Session} (h : Course files call exitCode output after)
    (hstarts : Starts files call choices selector start config)
    (hok : exec (announce root config (requestOf choices selector) call.now)
      (startSession start) = (.ok report, last)) : exitCode = success := by
  -- the two descriptions of the start agree, so every earlier ending is excluded
  cases h with
  | helped long read => rfl
  | misread mistake read => cases read.symm.trans hstarts.read
  | untargeted choices' read unselected =>
    obtain rfl := Except.ok.inj (read.symm.trans hstarts.read)
    cases unselected.symm.trans hstarts.selected
  | unentered choices' selector' fault read selected unentered =>
    obtain rfl := Except.ok.inj (read.symm.trans hstarts.read)
    cases unentered.symm.trans hstarts.entered
  | unconfigured choices' selector' start' fault read selected entered unconfigured =>
    obtain rfl := Except.ok.inj (read.symm.trans hstarts.read)
    obtain rfl := Except.ok.inj (entered.symm.trans hstarts.entered)
    cases unconfigured.symm.trans hstarts.configured
  | failed choices' selector' start' config' fault last' starts announced =>
    obtain ⟨rfl, rfl, rfl, rfl⟩ := hstarts.unique starts
    cases announced.symm.trans hok
  | finished => rfl

theorem eq_success_iff (h : Course files call exitCode output after) :
    exitCode = 0 ↔ (∃ long, CommandLine.read call.arguments = .error (.help long))
      ∨ ∃ choices selector start config report last,
        Starts files call choices selector start config
        ∧ exec (announce root config (requestOf choices selector) call.now)
          (startSession start) = (.ok report, last) := by
  constructor
  · intro hcode
    cases h with
    | helped long read => exact .inl ⟨long, read⟩
    | misread => cases hcode
    | untargeted => cases hcode
    | unentered => cases hcode
    | unconfigured => cases hcode
    | failed => cases hcode
    | finished choices selector start config report last starts announced =>
      exact .inr ⟨choices, selector, start, config, report, last, starts, announced⟩
  · rintro (⟨long, hread⟩ | ⟨_, _, _, _, _, _, hstarts, hok⟩)
    · exact (h.of_help hread).1
    · exact h.of_starts hstarts hok

theorem exitCode_mem (h : Course files call exitCode output after) :
    exitCode ∈ [0, 1, 2, 255] := by
  cases h <;> decide

/-- A call that is given up at its command line or its target has done nothing. -/
theorem untouched (h : Course files call exitCode output after)
    (hcode : exitCode = 1 ∨ exitCode = 2) : output = [] ∧ after = files := by
  cases h with
  | helped => rcases hcode with hcode | hcode <;> cases hcode
  | misread => exact ⟨rfl, rfl⟩
  | untargeted => exact ⟨rfl, rfl⟩
  | unentered => exact ⟨rfl, rfl⟩
  | unconfigured => rcases hcode with hcode | hcode <;> cases hcode
  | failed => rcases hcode with hcode | hcode <;> cases hcode
  | finished => rcases hcode with hcode | hcode <;> cases hcode

/-- A call that is given up before the announcement has written nothing. -/
theorem of_unstarted {selector : Selector} (h : Course files call exitCode output after)
    (hread : CommandLine.read call.arguments = .ok choices)
    (hselected : selectorOf? choices = some selector)
    (hnone : ∀ start config, ¬ Starts files call choices selector start config) :
    exitCode = 255 ∧ output = [] ∧ after.tree = files.tree := by
  cases h with
  | helped long read => cases read.symm.trans hread
  | misread mistake read => cases read.symm.trans hread
  | untargeted choices' read unselected =>
    obtain rfl := Except.ok.inj (read.symm.trans hread)
    cases unselected.symm.trans hselected
  | unentered => exact ⟨rfl, rfl, rfl⟩
  | unconfigured choices' selector' start fault read selected entered =>
    exact ⟨rfl, rfl, tree_of_entered entered⟩
  | failed choices' selector' start config fault last starts announced =>
    obtain rfl := Except.ok.inj (starts.read.symm.trans hread)
    obtain rfl := Option.some.inj (starts.selected.symm.trans hselected)
    exact absurd starts (hnone start config)
  | finished choices' selector' start config report last starts announced =>
    obtain rfl := Except.ok.inj (starts.read.symm.trans hread)
    obtain rfl := Option.some.inj (starts.selected.symm.trans hselected)
    exact absurd starts (hnone start config)

end Course

/-! ## §4 Outputs -/

/-- What an announcement prints to an output without a limit: the manifests of the targets up to one
that fails. -/
theorem exists_printouts_written (config : Config) (request : Request) (now : Instant)
    (start : FileSystem) :
    ∃ printouts updated, printouts.map (·.target) <+: request.selector.targets
      ∧ Steps (Prints root config request now) printouts start updated
      ∧ (exec (announce root config request now) (startSession start)).2.output.written =
        printed printouts := by
  obtain ⟨printouts, left, updated, horder, hsteps, hleft⟩ :=
    exists_printouts root config request now request.selector.targets start
  have hroom : (startSession start).output.HasRoom (printed printouts) :=
    Output.hasRoom_of_unlimited rfl
  obtain ⟨-, -, houtput, -⟩ := announce_of_hasRoom (startSession start)
    (startSession start) horder hsteps hleft rfl hroom hroom
  refine ⟨printouts, updated, ⟨left, horder.symm⟩, hsteps, ?_⟩
  rw [houtput]
  rfl

theorem Course.output_eq (h : Course files call exitCode output after) :
    (∃ long, CommandLine.read call.arguments = .error (.help long)
        ∧ output = utf8Bytes (CommandLine.helpText long))
      ∨ output = []
      ∨ ∃ choices selector start config printouts updated,
        Starts files call choices selector start config
        ∧ printouts.map (·.target) <+: selector.targets
        ∧ Steps (Prints root config (requestOf choices selector) call.now) printouts start updated
        ∧ output = printed printouts := by
  -- an announcement that was started prints in the order of its targets, whether it fails or not
  have hannounced {choices : CommandLine.Choices} {selector : Selector} {start : FileSystem}
      {config : Config} {result : Except Announcement.Fault Report} {last : Session}
      (starts : Starts files call choices selector start config)
      (announced : exec (announce root config (requestOf choices selector) call.now)
        (startSession start) = (result, last)) :
      ∃ choices selector start config printouts updated,
        Starts files call choices selector start config
        ∧ printouts.map (·.target) <+: selector.targets
        ∧ Steps (Prints root config (requestOf choices selector) call.now) printouts start updated
        ∧ last.output.written = printed printouts := by
    obtain ⟨printouts, updated, horder, hsteps, hwritten⟩ :=
      exists_printouts_written config (requestOf choices selector) call.now start
    rw [announced] at hwritten
    exact ⟨choices, selector, start, config, printouts, updated, starts, horder, hsteps, hwritten⟩
  cases h with
  | helped long read => exact .inl ⟨long, read, rfl⟩
  | misread => exact .inr (.inl rfl)
  | untargeted => exact .inr (.inl rfl)
  | unentered => exact .inr (.inl rfl)
  | unconfigured => exact .inr (.inl rfl)
  | failed choices selector start config fault last starts announced =>
    exact .inr (.inr (hannounced starts announced))
  | finished choices selector start config report last starts announced =>
    exact .inr (.inr (hannounced starts announced))

end

/-! ## §5 Endings -/

/-- How every call ends.  The exit code is 2 just when the command line cannot be read; 1 just when
it can be and names no target; 0 just when it asks for help, or there is a target, a directory that
can be entered and a configuration, and the announcement succeeds; and 255 in all other cases.  With
1 or 2, and when it is the directory or the configuration that fails, nothing is printed and no file
is changed.  What is printed is the help text, or nothing, or manifests as they are saved. -/
theorem run_ending (files : FileSystem) (call : Call) :
    ((run files call).exitCode = 2 ↔
        ∃ mistake, CommandLine.read call.arguments = .error (.mistake mistake))
      ∧ ((run files call).exitCode = 1 ↔
        ∃ choices, CommandLine.read call.arguments = .ok choices
          ∧ ∀ name ∈ choices.target?, name ∉ ["linux", "darwin", "windows", "all"])
      ∧ ((run files call).exitCode = 0 ↔
        (∃ long, CommandLine.read call.arguments = .error (.help long))
          ∨ ∃ choices selector start config report last,
            Starts files call choices selector start config
            ∧ exec (announce root config (requestOf choices selector) call.now)
              (startSession start) = (.ok report, last))
      ∧ (run files call).exitCode ∈ [0, 1, 2, 255]
      ∧ ((run files call).exitCode = 1 ∨ (run files call).exitCode = 2 →
        (run files call).output = [] ∧ (run files call).files = files)
      ∧ (∀ choices selector, CommandLine.read call.arguments = .ok choices →
        selectorOf? choices = some selector →
        ((∃ fault, entered choices files = .error fault)
          ∨ ∃ start fault, entered choices files = .ok start
            ∧ Config.ofProject start root choices.config? = .error fault) →
        (run files call).exitCode = 255 ∧ (run files call).output = []
          ∧ (run files call).files.tree = files.tree)
      ∧ ((∃ long, CommandLine.read call.arguments = .error (.help long)
          ∧ (run files call).output = utf8Bytes (CommandLine.helpText long))
        ∨ (run files call).output = []
        ∨ ∃ choices selector start config printouts updated,
          Starts files call choices selector start config
          ∧ printouts.map (·.target) <+: selector.targets
          ∧ Steps (Prints root config (requestOf choices selector) call.now) printouts start
            updated
          ∧ (run files call).output = printed printouts) := by
  have h := course_run files call
  refine ⟨h.eq_badCommandLine_iff, h.eq_badTarget_iff, h.eq_success_iff, h.exitCode_mem,
    h.untouched, fun choices selector hread hselected hfails => ?_, h.output_eq⟩
  refine h.of_unstarted hread hselected fun start config hstarts => ?_
  rcases hfails with ⟨fault, hfault⟩ | ⟨other, fault, hother, hfault⟩
  · cases hfault.symm.trans hstarts.entered
  · obtain rfl := Except.ok.inj (hother.symm.trans hstarts.entered)
    cases hfault.symm.trans hstarts.configured

/-- A call with a directory that is not there, and one with a target that is unknown. -/
theorem run_ending_sample :
    let lost : Call := ⟨["--target", "linux", "-C", "nowhere"], none, ⟨0, 0⟩, false⟩
    let unknown : Call := ⟨["--target", "amiga"], none, ⟨0, 0⟩, false⟩
    (run bareFiles lost).exitCode = 255 ∧ (run bareFiles lost).output = []
      ∧ (run bareFiles lost).files.tree = bareFiles.tree
      ∧ (run bareFiles unknown).exitCode = 1 ∧ (run bareFiles unknown).output = []
      ∧ (run bareFiles unknown).files = bareFiles := by
  intro lost unknown
  obtain ⟨choices, hread, hselected, hentered⟩ : ∃ choices,
      CommandLine.read lost.arguments = .ok choices
        ∧ selectorOf? choices = some (.one .linux)
        ∧ entered choices bareFiles = .error .notFound := ⟨_, rfl, by decide +kernel, rfl⟩
  have hcode : (run bareFiles unknown).exitCode = 1 := by
    decide +kernel
  obtain ⟨_, _, _, _, _, hlost, _⟩ := run_ending bareFiles lost
  obtain ⟨_, _, _, _, huntouched, _⟩ := run_ending bareFiles unknown
  obtain ⟨hlostCode, hlostOutput, hlostTree⟩ :=
    hlost choices (.one .linux) hread hselected (.inl ⟨.notFound, hentered⟩)
  exact ⟨hlostCode, hlostOutput, hlostTree, hcode, huntouched (.inl hcode)⟩

end Program

end UpdateFeed
