import UpdateFeed.Proofs.Announcement.Edits

/-!
# What the steps of an announcement do

An announcement is a list of steps: one for each selected target, and one for each version file.  A
step is given here as a plain function of the files and of the output.  Events are left out: no step
reads them, so they cannot change what a step does.

- `exec_announceTarget`: the step of a target, all of its failures included.
- `exec_writeInto`: the step of a version file.
-/

namespace UpdateFeed

/-- A session after further events. -/
def Session.reporting (session : Session) (events : List Log.Event) : Session :=
  { session with events := session.events ++ events }

namespace Output

/-- Whether an output takes a text and a line break behind it. -/
def takesLine (output : Output) (text : String) : Bool :=
  output.accepts text && (output.write text).accepts "\n"

/-- The output after a text and a line break behind it, of which it holds as much as it takes. -/
def writeLine (output : Output) (text : String) : Output :=
  if output.accepts text then (output.write text).write "\n" else output.write text

end Output

namespace Announcement

open Run

/-! ## §1 Signatures -/

/-- The path and the text of a signature, if a search found one file and it is not empty. -/
def usable? : Signature.Finding → Option (String × String)
  | .single path text => if text = "" then none else some (path, text)
  | .nothing => none
  | .several _ => none

/-- The fault of a strict request for which nothing usable was found. -/
def refusal (target : Target) (pattern : String) : Signature.Finding → Fault
  | .single path _ => .blankSignature target path
  | .nothing => .unsigned target pattern
  | .several paths => .severalSignatures target pattern paths.length

/-- What becomes of the answer of a search. -/
def choice (strictness : Strictness) (target : Target) (pattern : String)
    (answer : Except SignatureFault Signature.Finding) : Except Fault (Option (String × String)) :=
  match answer with
  | .error fault => .error (.signature fault)
  | .ok finding =>
    match usable? finding, strictness with
    | some signature, _ => .ok (some signature)
    | none, .lenient => .ok none
    | none, .strict => .error (refusal target pattern finding)

/-- The choice of a signature depends on the files alone. -/
theorem exec_chooseSignature (root : String) (request : Request) (target : Target)
    (pattern : String) (session : Session) :
    ∃ events, exec (chooseSignature root request target pattern) session =
      (choice request.strictness target pattern (Signature.search session.files root pattern).2,
        session.reporting events) := by
  unfold chooseSignature
  rcases hsearch : Signature.search session.files root pattern with ⟨reported, answer⟩
  simp only [exec_bind, exec_files, hsearch, exec_reportAll, exec_lift, note]
  -- the events differ from case to case, and what is chosen is read off the finding
  cases answer with
  | error fault => exact ⟨reported, rfl⟩
  | ok finding =>
    cases finding with
    | single path text =>
      -- an empty signature is no signature
      by_cases htext : text = ""
      · cases hstrict : request.strictness <;>
          simp [htext, choice, usable?, refusal, Session.reporting, Except.mapError, Except.map]
      · simp [htext, choice, usable?, Session.reporting, Except.mapError, Except.map]
    | nothing =>
      cases hstrict : request.strictness <;>
        simp [choice, usable?, refusal, Session.reporting, Except.mapError, Except.map]
    | several paths =>
      cases hstrict : request.strictness <;>
        simp [choice, usable?, refusal, Session.reporting, Except.mapError, Except.map, exec_bind]

/-! ## §2 Targets -/

/-- The manifest of a target as it is to be saved and printed, and the signature that is put into
it. -/
def prepare (root : String) (config : Config) (request : Request) (now : Instant)
    (target : Target) (files : FileSystem) :
    Except Fault (Manifest × Option (String × String)) := do
  let settings := config.settings target
  let manifest ←
    (Manifest.ofFile files (Path.join root settings.manifest)).mapError .manifest
  let signature? ← choice request.strictness target settings.signaturePattern
    (Signature.search files root settings.signaturePattern).2
  let manifest ←
    (editManifest settings request now (signature?.map Prod.snd) manifest).mapError .manifest
  .ok (manifest, signature?)

/-- The files after a manifest is saved; a dry run leaves them alone. -/
def saved (request : Request) (manifest : Manifest) (files : FileSystem) :
    Except Fault FileSystem :=
  if request.dryRun then .ok files else (manifest.save files).mapError .manifest

/-- What the step of a target makes of the files and of the output. -/
def targetEffect (root : String) (config : Config) (request : Request) (now : Instant)
    (target : Target) (files : FileSystem) (output : Output) :
    Except Fault Entry × FileSystem × Output :=
  match prepare root config request now target files with
  | .error fault => (.error fault, files, output)
  | .ok (manifest, signature?) =>
    match saved request manifest files with
    | .error fault => (.error fault, files, output)
    | .ok files =>
      let entry := ⟨target, (config.settings target).manifest, signature?.map Prod.fst⟩
      (if output.takesLine manifest.render then .ok entry else .error .outputClosed, files,
        output.writeLine manifest.render)

/-- Printing a manifest is writing a line. -/
private theorem exec_writeLine {α : Type} (text : String) (value : α) (session : Session) :
    exec (do write Fault.outputClosed text; write Fault.outputClosed "\n"; pure value) session =
      (if session.output.takesLine text then .ok value else .error .outputClosed,
        { session with output := session.output.writeLine text }) := by
  rw [exec_bind, exec_write]
  -- the line break is tried only if the output has taken the text
  by_cases hfirst : session.output.accepts text = true
  · simp only [hfirst, if_true, Output.takesLine, Output.writeLine, Bool.true_and]
    rw [exec_bind, exec_write]
    by_cases hsecond : (session.output.write text).accepts "\n" = true
    · simp [hsecond]
    · simp [hsecond]
  · simp [hfirst, Output.takesLine, Output.writeLine]

/-- The step of a target. -/
theorem exec_announceTarget (root : String) (config : Config) (request : Request) (now : Instant)
    (target : Target) (session : Session) :
    ∃ events, exec (announceTarget root config request now target) session =
      let effect := targetEffect root config request now target session.files session.output
      (effect.1, ⟨effect.2.1, effect.2.2, session.events ++ events⟩) := by
  unfold announceTarget targetEffect prepare
  dsimp only [note]
  rw [exec_bind, exec_report]
  dsimp only
  rw [exec_bind, exec_files]
  dsimp only
  rw [exec_bind, exec_lift]
  -- the step and its effect go through the same failures: loading, signature, edits, saving
  cases Manifest.ofFile session.files (Path.join root (config.settings target).manifest) with
  | error fault => exact ⟨_, rfl⟩
  | ok manifest =>
    dsimp only [Except.mapError]
    rw [exec_bind]
    -- the search reads the files, which are still those of the start of the step
    obtain ⟨chosen, hchoose⟩ := exec_chooseSignature root request target
      (config.settings target).signaturePattern
      { session with events := session.events ++ [⟨.info, .announcement, _⟩] }
    rw [hchoose]
    dsimp only
    cases choice request.strictness target (config.settings target).signaturePattern
        (Signature.search session.files root (config.settings target).signaturePattern).2 with
    | error fault => exact ⟨_, by rw [← List.append_assoc]; rfl⟩
    | ok signature? =>
      dsimp only
      rw [exec_bind, exec_lift, ok_bind, ok_bind]
      cases editManifest (config.settings target) request now (signature?.map Prod.snd)
          manifest with
      | error fault => exact ⟨_, by rw [← List.append_assoc]; rfl⟩
      -- what is saved and printed is the edited manifest, in a dry run too
      | ok edited =>
        dsimp only [Except.mapError, Session.reporting, saved]
        rw [ok_bind]
        dsimp only
        -- a dry run goes on to printing at once
        cases request.dryRun with
        | true =>
          simp only [Bool.not_true, Bool.false_eq_true, if_false, if_true]
          rw [exec_writeLine]
          exact ⟨_, by rw [← List.append_assoc]⟩
        | false =>
          simp only [Bool.not_false, Bool.false_eq_true, if_false, if_true]
          rw [exec_bind, exec_files]
          dsimp only
          rw [exec_bind, exec_lift]
          -- from here on the files are the saved ones
          cases edited.save session.files with
          | error fault => exact ⟨_, by rw [← List.append_assoc]; rfl⟩
          | ok files =>
            dsimp only [Except.mapError]
            rw [exec_bind, exec_setFiles]
            dsimp only
            rw [exec_bind, exec_report]
            dsimp only
            rw [exec_writeLine]
            exact ⟨_, by rw [List.append_assoc, List.append_assoc]⟩

/-! ## §3 Version files -/

/-- What writing the version into one file makes of the files. -/
def versionEffect (root version : String) (dryRun : Bool) (place : String × List String)
    (files : FileSystem) : Except DocumentFault FileSystem := do
  let document ← Document.ofFile files (Path.join root place.1)
  let document ← document.putString place.2 "version" version
  if dryRun then return files else document.save files

/-- The step of a version file. -/
theorem exec_writeInto (root version : String) (dryRun : Bool) (place : String × List String)
    (session : Session) :
    ∃ events, exec (VersionFiles.writeInto root version dryRun place) session =
      match versionEffect root version dryRun place session.files with
      | .error fault => (.error fault, session.reporting events)
      | .ok files => (.ok place.1, { session with files }.reporting events) := by
  obtain ⟨path, keys⟩ := place
  unfold VersionFiles.writeInto versionEffect
  dsimp only
  rw [exec_bind, exec_files]
  dsimp only
  rw [exec_bind, exec_lift]
  -- loading, editing and saving may fail, and a dry run ends before the last of them
  cases Document.ofFile session.files (Path.join root path) with
  | error fault => exact ⟨[], by simp [Session.reporting, error_bind, Except.mapError]⟩
  | ok document =>
    dsimp only [Except.mapError]
    rw [exec_bind, exec_lift, ok_bind]
    cases document.putString keys "version" version with
    | error fault => exact ⟨[], by simp [Session.reporting, error_bind, Except.mapError]⟩
    | ok edited =>
      dsimp only [Except.mapError]
      rw [ok_bind]
      cases dryRun with
      -- a dry run has nothing to save
      | true => exact ⟨_, rfl⟩
      | false =>
        simp only [Bool.not_false, Bool.false_eq_true, if_false, if_true]
        rw [exec_bind, exec_files]
        dsimp only
        rw [exec_bind, exec_lift]
        cases edited.save session.files with
        | error fault => exact ⟨[], by simp [Session.reporting, Except.mapError]⟩
        | ok files => exact ⟨_, rfl⟩

end Announcement

end UpdateFeed
