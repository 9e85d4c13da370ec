import UpdateFeed.Proofs.Announcement.Chain

/-!
# Where a failed announcement stops

An announcement that fails has completed the steps before the failing one, and the session is then
what a run of those steps alone leaves.  What the failing step itself has done depends on where it
fails: before its file is saved it has done nothing, and a manifest that cannot be printed is saved.

- `Stopped`: the places at which an announcement fails, each with what is done by then.
- `announce_stopped`: a failed announcement stopped at one of them, and left no file half written.
-/

namespace UpdateFeed

/-- What a file system is after files were replaced by whole texts of documents: every other place
holds what it held before. -/
def FileSystem.Whole (before after : FileSystem) : Prop :=
  ∀ address, after.tree.holdingAt address = before.tree.holdingAt address
    ∨ ∃ document : Document, after.tree.holdingAt address = some (.file document.render.toUTF8)

namespace FileSystem

theorem Whole.refl (files : FileSystem) : Whole files files :=
  fun _ => .inl rfl

theorem Whole.trans {first second third : FileSystem} (h₁ : Whole first second)
    (h₂ : Whole second third) : Whole first third := by
  intro address
  rcases h₂ address with h | h
  · rw [h]
    exact h₁ address
  · exact .inr h

theorem Replaces.whole {path : String} {document : Document} {before after : FileSystem}
    (h : Replaces path document.render before after) : Whole before after := by
  obtain ⟨place, _, hplace, hothers, _⟩ := h
  intro address
  -- the replaced place holds the new text, and any other one what it held before
  by_cases haddress : address = place
  · subst haddress
    exact .inr ⟨document, hplace⟩
  · exact .inl (hothers address haddress)

end FileSystem

namespace Announcement

open Run

section

variable {root : String} {config : Config} {request : Request} {now : Instant}

/-! ## §1 Whole files -/

theorem ManifestStep.whole {target : Target} {before after : FileSystem}
    (h : ManifestStep root config request now target before after) :
    FileSystem.Whole before after := by
  obtain ⟨_, _, _, _, _, _, _, hreplaced⟩ := h
  exact hreplaced.whole

theorem VersionStep.whole {version : String} {place : String × List String}
    {before after : FileSystem} (h : VersionStep root version place before after) :
    FileSystem.Whole before after := by
  obtain ⟨_, _, _, _, hreplaced⟩ := h
  exact hreplaced.whole

/-- At every moment between two steps every file is whole. -/
theorem whole_of_manifestSteps {targets : List Target} {before after : FileSystem}
    (h : Steps (ManifestStep root config request now) targets before after) :
    FileSystem.Whole before after :=
  h.invariant FileSystem.Whole.refl (fun _ _ _ => FileSystem.Whole.trans)
    fun _ _ _ hstep => hstep.whole

/-! ## §2 Failures of a target -/

/-- Whether a fault arises in the step of a target before its manifest is printed. -/
def Fault.beforePrinting : Fault → Bool
  | .outputClosed => false
  | .versionFile _ => false
  | _ => true

theorem beforePrinting_of_choice {strictness : Strictness} {target : Target} {pattern : String}
    {answer : Except SignatureFault Signature.Finding} {fault : Fault}
    (h : choice strictness target pattern answer = .error fault) :
    fault.beforePrinting = true := by
  unfold choice at h
  split at h
  · -- a strict refusal, whatever was found
    obtain rfl := Except.error.inj h
    rfl
  · rename_i finding
    split at h
    · simp at h
    · simp at h
    · obtain rfl := Except.error.inj h
      cases finding <;> rfl

theorem beforePrinting_of_manifest {α : Type} {result : Except ManifestFault α} {fault : Fault}
    (h : result.mapError Fault.manifest = .error fault) : fault.beforePrinting = true := by
  obtain ⟨inner, -, rfl⟩ := mapError_eq_error.mp h
  rfl

theorem beforePrinting_of_prepare {target : Target} {files : FileSystem} {fault : Fault}
    (h : prepare root config request now target files = .error fault) :
    fault.beforePrinting = true := by
  -- loading, choosing a signature and editing are all before printing
  rcases or_of_bind_eq_error h with h | ⟨_, _, h⟩
  · exact beforePrinting_of_manifest h
  · rcases or_of_bind_eq_error h with h | ⟨_, _, h⟩
    · exact beforePrinting_of_choice h
    · rcases or_of_bind_eq_error h with h | ⟨_, _, h⟩
      · exact beforePrinting_of_manifest h
      · simp at h

/-- The step of a target that fails before printing has left files and output alone; one that fails
in printing has saved its manifest. -/
theorem targetFailure_of_exec {target : Target} {session after : Session} {fault : Fault}
    (hreal : request.dryRun = false)
    (h : exec (announceTarget root config request now target) session = (.error fault, after)) :
    fault.beforePrinting = true ∧ after.files = session.files ∧ after.output = session.output
      ∨ fault = .outputClosed
        ∧ ManifestStep root config request now target session.files after.files := by
  obtain ⟨events, heffect⟩ := exec_announceTarget root config request now target session
  obtain ⟨hresult, rfl⟩ := Prod.mk.inj (h.symm.trans heffect)
  revert hresult
  unfold targetEffect
  -- it fails in preparing, in saving or in printing, of which only the last is behind saving
  split
  · -- nothing is done before the manifest is prepared
    rename_i hprepare
    intro hresult
    obtain rfl := Except.error.inj hresult
    exact .inl ⟨beforePrinting_of_prepare hprepare, rfl, rfl⟩
  · rename_i manifest signature? hprepare
    split
    · -- a failed save leaves the files as they are
      rename_i hsaved
      intro hresult
      obtain rfl := Except.error.inj hresult
      simp only [saved, hreal, Bool.false_eq_true, if_false] at hsaved
      exact .inl ⟨beforePrinting_of_manifest hsaved, rfl, rfl⟩
    · -- the manifest is saved, so the fault is that of the output
      rename_i files hsaved
      intro hresult
      dsimp only at hresult ⊢
      split at hresult
      · simp at hresult
      · exact .inr ⟨Except.error.inj hresult, manifestStep_of_saved hreal hprepare hsaved⟩

/-! ## §3 Failures of an announcement -/

/-- What is done when the steps of some targets are completed: a run of them alone leaves this
session, and each of their manifests is saved. -/
structure Completed (root : String) (config : Config) (request : Request) (now : Instant)
    (targets : List Target) (session between : Session) : Prop where
  run : ∃ entries, exec (targets.mapM (announceTarget root config request now)) session =
    (.ok entries, between)
  saved : Steps (ManifestStep root config request now) targets session.files between.files

/-- The places at which an announcement stops with a fault, each with what is done by then. -/
inductive Stopped (root : String) (config : Config) (request : Request) (now : Instant)
    (session : Session) : Fault → Session → Prop
  /-- A target fails before its manifest is saved: the targets before it are completed, and its own
  step has changed neither the files nor the output. -/
  | unsaved {done later : List Target} {target : Target} {between after : Session} {fault : Fault}
      (order : request.selector.targets = done ++ target :: later)
      (completed : Completed root config request now done session between)
      (failed : exec (announceTarget root config request now target) between =
        (.error fault, after))
      (cause : fault.beforePrinting = true)
      (files : after.files = between.files)
      (output : after.output = between.output) :
      Stopped root config request now session fault after
  /-- The manifest of a target is saved but not printed. -/
  | unprinted {done later : List Target} {target : Target} {between after : Session}
      (order : request.selector.targets = done ++ target :: later)
      (completed : Completed root config request now done session between)
      (failed : exec (announceTarget root config request now target) between =
        (.error .outputClosed, after))
      (saved : ManifestStep root config request now target between.files after.files) :
      Stopped root config request now session .outputClosed after
  /-- All targets are completed, and the first version file fails: it is not saved either. -/
  | packageJson {version : String} {between after : Session} {fault : DocumentFault}
      (given : request.version? = some version)
      (completed : Completed root config request now request.selector.targets session between)
      (failed : versionEffect root version false (config.versionFiles.packageJson, [])
        between.files = .error fault)
      (files : after.files = between.files)
      (output : after.output = between.output) :
      Stopped root config request now session (.versionFile fault) after
  /-- All targets are completed, the first version file is saved, and the second one fails: it is
  not saved. -/
  | packagingConfig {version : String} {between after : Session} {fault : DocumentFault}
      (given : request.version? = some version)
      (completed : Completed root config request now request.selector.targets session between)
      (saved : VersionStep root version (config.versionFiles.packageJson, []) between.files
        after.files)
      (failed : versionEffect root version false (config.versionFiles.packagingConfig, ["package"])
        after.files = .error fault)
      (output : after.output = between.output) :
      Stopped root config request now session (.versionFile fault) after

theorem completed_of_exec {targets : List Target} {session between : Session}
    {entries : List Entry} (hreal : request.dryRun = false)
    (h : exec (targets.mapM (announceTarget root config request now)) session =
      (.ok entries, between)) :
    Completed root config request now targets session between :=
  ⟨⟨entries, h⟩, manifestSteps_of_exec hreal h⟩

/-- A failure among the targets. -/
private theorem stopped_of_targets {session after : Session} {fault : Fault}
    (hreal : request.dryRun = false)
    (h : exec (request.selector.targets.mapM (announceTarget root config request now)) session =
      (.error fault, after)) : Stopped root config request now session fault after := by
  -- there is a first target that fails, and those before it are completed
  obtain ⟨done, target, later, entries, between, horder, hdone, hfailed⟩ :=
    exists_of_exec_mapM_error h
  have hcompleted := completed_of_exec hreal hdone
  rcases targetFailure_of_exec hreal hfailed with ⟨hcause, hfiles, houtput⟩ | ⟨rfl, hsaved⟩
  · exact .unsaved horder hcompleted hfailed hcause hfiles houtput
  · exact .unprinted horder hcompleted hfailed hsaved

/-- The step of a version file that fails leaves files and output alone. -/
private theorem versionFailure_of_exec {version : String} {place : String × List String}
    {session after : Session} {fault : DocumentFault}
    (h : exec (VersionFiles.writeInto root version false place) session = (.error fault, after)) :
    versionEffect root version false place session.files = .error fault
      ∧ after.files = session.files ∧ after.output = session.output := by
  obtain ⟨events, heffect⟩ := exec_writeInto root version false place session
  rw [h] at heffect
  split at heffect
  · rename_i other hother
    obtain ⟨hfault, rfl⟩ := Prod.mk.inj heffect
    obtain rfl := Except.error.inj hfault
    exact ⟨hother, rfl, rfl⟩
  · simp at heffect

/-- The step of a version file that succeeds leaves the output alone. -/
private theorem output_of_exec_writeInto {version path : String} {place : String × List String}
    {session after : Session}
    (h : exec (VersionFiles.writeInto root version false place) session = (.ok path, after)) :
    after.output = session.output := by
  obtain ⟨events, heffect⟩ := exec_writeInto root version false place session
  rw [h] at heffect
  split at heffect
  · simp at heffect
  · obtain ⟨-, rfl⟩ := Prod.mk.inj heffect
    rfl

/-- A failure among the version files. -/
private theorem stopped_of_version {session between after : Session} {fault : Fault}
    (hreal : request.dryRun = false)
    (hcompleted : Completed root config request now request.selector.targets session between)
    (h : exec (announceVersion root config request) between = (.error fault, after)) :
    Stopped root config request now session fault after := by
  unfold announceVersion at h
  cases hversion : request.version? with
  | none =>
    rw [hversion] at h
    simp at h
  | some version =>
    rw [hversion, hreal] at h
    dsimp only [VersionFiles.writeVersion] at h
    rw [exec_mapError] at h
    obtain ⟨hfault, hafter⟩ := Prod.mk.inj h
    obtain ⟨inner, hinner, rfl⟩ := mapError_eq_error.mp hfault
    -- there are two version files, and the failing one is the first or the second of them
    obtain ⟨done, place, later, paths, last, horder, hdone, hfailed⟩ :=
      exists_of_exec_mapM_error (Prod.ext hinner hafter)
    obtain ⟨heffect, hfiles, houtput⟩ := versionFailure_of_exec hfailed
    rcases done with _ | ⟨first, _ | ⟨second, rest⟩⟩
    · -- the first one failed, before which nothing is done
      obtain ⟨rfl, -⟩ := List.cons.inj horder
      obtain ⟨-, rfl⟩ : [] = paths ∧ between = last := by simpa using hdone
      exact .packageJson hversion hcompleted heffect hfiles houtput
    · -- the first one is saved, and the second one failed on the files that this left
      obtain ⟨rfl, hsecond⟩ := List.cons.inj horder
      obtain ⟨rfl, -⟩ := List.cons.inj hsecond
      rw [List.mapM_cons] at hdone
      obtain ⟨path, middle, hfirst, hdone⟩ := exec_bind_eq_ok hdone
      obtain ⟨-, rfl⟩ : [path] = paths ∧ middle = last := by simpa using hdone
      refine .packagingConfig hversion hcompleted ?_ ?_ ?_
      · rw [hfiles]
        exact versionStep_of_exec hfirst
      · rw [hfiles]
        exact heffect
      · rw [houtput]
        exact output_of_exec_writeInto hfirst
    · have hlength := congrArg List.length horder
      simp [VersionFiles.places] at hlength

/-- Wherever an announcement stops, every file is whole. -/
theorem Stopped.whole {session after : Session} {fault : Fault}
    (h : Stopped root config request now session fault after) :
    FileSystem.Whole session.files after.files := by
  -- every case is a chain of completed steps, with one more saved file at most
  cases h with
  | unsaved _ completed _ _ files _ =>
    rw [files]
    exact whole_of_manifestSteps completed.saved
  | unprinted _ completed _ saved =>
    exact (whole_of_manifestSteps completed.saved).trans saved.whole
  | packageJson _ completed _ files _ =>
    rw [files]
    exact whole_of_manifestSteps completed.saved
  | packagingConfig _ completed saved _ _ =>
    exact (whole_of_manifestSteps completed.saved).trans saved.whole

/-- A failed announcement has stopped at one place, and neither at its end nor between two of its
steps is a file anything but what it was or a whole document. -/
theorem announce_stopped {session after : Session} {fault : Fault}
    (hreal : request.dryRun = false)
    (h : exec (announce root config request now) session = (.error fault, after)) :
    Stopped root config request now session fault after
      ∧ FileSystem.Whole session.files after.files
      ∧ ∀ done later between, request.selector.targets = done ++ later →
          Completed root config request now done session between →
          FileSystem.Whole session.files between.files := by
  have hstopped : Stopped root config request now session fault after := by
    -- the targets, the version files and the report, of which the last cannot fail
    rcases exec_bind_eq_error h with htargets | ⟨entries, between, htargets, h⟩
    · exact stopped_of_targets hreal htargets
    · rcases exec_bind_eq_error h with hversion | ⟨paths, last, _, h⟩
      · exact stopped_of_version hreal (completed_of_exec hreal htargets) hversion
      · simp at h
  -- a run that has completed some targets is itself such a chain
  exact ⟨hstopped, hstopped.whole, fun _ _ _ _ hdone => whole_of_manifestSteps hdone.saved⟩

end

/-- The small project with a second platform for the first target that its manifest does not list.
-/
def unlistedConfig : Config :=
  { sampleConfig with darwin := { sampleConfig.darwin with platforms := ["a", "c"] } }

theorem announce_stopped_sample :
    (exec (announce "." unlistedConfig { sampleRequest with selector := .all } ⟨0, 0⟩)
        sampleSession).1 = .error (.manifest (.unlistedPlatform "./feed.json" "c"))
      ∧ Stopped "." unlistedConfig { sampleRequest with selector := .all } ⟨0, 0⟩ sampleSession
        (.manifest (.unlistedPlatform "./feed.json" "c"))
        (exec (announce "." unlistedConfig { sampleRequest with selector := .all } ⟨0, 0⟩)
          sampleSession).2 := by
  have hresult :
      (exec (announce "." unlistedConfig { sampleRequest with selector := .all } ⟨0, 0⟩)
        sampleSession).1 = .error (.manifest (.unlistedPlatform "./feed.json" "c")) := by
    decide +kernel
  exact ⟨hresult, (announce_stopped rfl (Prod.ext hresult rfl)).1⟩

end Announcement

end UpdateFeed
