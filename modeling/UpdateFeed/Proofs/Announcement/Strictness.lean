import UpdateFeed.Proofs.Announcement.Chain

/-!
# Strict and lenient announcements

A strict announcement and a lenient one go the same way as long as each target has a usable
signature.  At the first target without one the strict announcement stops with a refusal, and what
is done by then is what the targets before it have done; the lenient one goes on, and its report
shows that target without a signature.

- `Refuses`: when a strict step refuses its target.
- `targetEffect_strictly`: a strict step is the lenient one, or refuses its target.
- `announce_strictly`: a strict announcement succeeds exactly when the lenient one does with a
  signature for each target, and otherwise stops with the fault of the lenient one or at the first
  target that it refuses.
-/

namespace UpdateFeed

/-- Sessions that differ in what was reported at most. -/
def Session.SameState (first second : Session) : Prop :=
  first.files = second.files ∧ first.output = second.output

namespace Announcement

open Run
open UpdateFeed.Session (SameState)

/-! ## §1 Requests of either strictness -/

namespace Request

/-- The request with every signature required. -/
def strictly (request : Request) : Request := { request with strictness := .strict }

/-- The request with missing signatures passed over. -/
def leniently (request : Request) : Request := { request with strictness := .lenient }

end Request

/-- Whether an entry names the signature file that was used. -/
def Entry.isSigned (entry : Entry) : Bool := entry.signature?.isSome

/-- When a strict step refuses its target: the manifest is loaded and the search succeeds, but does
not give exactly one file that is not empty. -/
inductive Refuses (root : String) (config : Config) (target : Target) (files : FileSystem) :
    Fault → Prop
  | intro (manifest : Manifest) (finding : Signature.Finding)
      (loaded : Manifest.ofFile files (Path.join root (config.settings target).manifest) =
        .ok manifest)
      (found : (Signature.search files root (config.settings target).signaturePattern).2 =
        .ok finding)
      (unusable : usable? finding = none) :
      Refuses root config target files
        (refusal target (config.settings target).signaturePattern finding)

section

variable {root : String} {config : Config} {request : Request} {now : Instant}

/-! ## §2 Steps -/

/-- Where a finding is usable, or there is none, strictness makes no difference. -/
theorem choice_strict {target : Target} {pattern : String}
    {answer : Except SignatureFault Signature.Finding}
    (h : ∀ finding, answer = .ok finding → usable? finding ≠ none) :
    choice .strict target pattern answer = choice .lenient target pattern answer := by
  cases answer with
  | error fault => rfl
  | ok finding =>
    unfold choice
    dsimp only
    cases husable : usable? finding with
    | some signature => rfl
    | none => exact absurd husable (h finding rfl)

/-- A strict choice refuses a finding that is not usable. -/
theorem choice_strict_of_unusable {target : Target} {pattern : String}
    {finding : Signature.Finding} (h : usable? finding = none) :
    choice .strict target pattern (.ok finding) = .error (refusal target pattern finding) := by
  unfold choice
  dsimp only
  rw [h]

/-- Preparing a manifest depends on strictness through the choice of a signature only. -/
theorem prepare_strictly {target : Target} {files : FileSystem}
    (h : choice .strict target (config.settings target).signaturePattern
        (Signature.search files root (config.settings target).signaturePattern).2 =
      choice .lenient target (config.settings target).signaturePattern
        (Signature.search files root (config.settings target).signaturePattern).2) :
    prepare root config request.strictly now target files =
      prepare root config request.leniently now target files := by
  unfold prepare
  dsimp only [Request.strictly, Request.leniently]
  -- the two requests differ in their strictness alone, and only the choice reads it
  rw [h]
  rfl

/-- A manifest that cannot be loaded is the first fault of a step. -/
theorem prepare_of_unloaded {target : Target} {files : FileSystem} {fault : ManifestFault}
    (h : Manifest.ofFile files (Path.join root (config.settings target).manifest) =
      .error fault) :
    prepare root config request now target files = .error (.manifest fault) := by
  unfold prepare
  dsimp only
  rw [h]
  rfl

/-- Behind a manifest that is loaded, the fault of a choice is that of the step. -/
theorem prepare_of_unchosen {target : Target} {files : FileSystem} {manifest : Manifest}
    {fault : Fault}
    (hloaded : Manifest.ofFile files (Path.join root (config.settings target).manifest) =
      .ok manifest)
    (h : choice request.strictness target (config.settings target).signaturePattern
      (Signature.search files root (config.settings target).signaturePattern).2 =
        .error fault) :
    prepare root config request now target files = .error fault := by
  unfold prepare
  dsimp only
  rw [hloaded, h]
  rfl

/-- The signature of a manifest that is prepared is the choice for its target. -/
theorem choice_of_prepare {target : Target} {files : FileSystem} {manifest : Manifest}
    {signature? : Option (String × String)}
    (h : prepare root config request now target files = .ok (manifest, signature?)) :
    choice request.strictness target (config.settings target).signaturePattern
      (Signature.search files root (config.settings target).signaturePattern).2 =
        .ok signature? := by
  obtain ⟨_, _, h⟩ := exists_of_bind_eq_ok h
  obtain ⟨chosen, hchosen, h⟩ := exists_of_bind_eq_ok h
  obtain ⟨changed, _, h⟩ := exists_of_bind_eq_ok h
  obtain ⟨-, rfl⟩ : changed = manifest ∧ chosen = signature? := by simpa using h
  exact hchosen

/-- An entry is signed exactly when the search of its step found something usable. -/
theorem isSigned_of_targetEffect {target : Target} {files : FileSystem} {output : Output}
    {entry : Entry}
    (h : (targetEffect root config request now target files output).1 = .ok entry) :
    ∃ finding,
      (Signature.search files root (config.settings target).signaturePattern).2 = .ok finding
        ∧ entry.isSigned = (usable? finding).isSome := by
  unfold targetEffect at h
  split at h
  · cases h
  · rename_i manifest signature? hprepare
    -- the entry names the signature that was chosen, which is what is usable of the finding
    obtain ⟨finding, hfound, rfl⟩ := exists_of_choice_eq_ok (choice_of_prepare hprepare)
    refine ⟨finding, hfound, ?_⟩
    split at h
    · cases h
    · dsimp only at h
      split at h
      · obtain rfl := Except.ok.inj h
        simp [Entry.isSigned]
      · cases h

/-- A strict step that refuses its target does nothing. -/
theorem targetEffect_of_refuses {target : Target} {files : FileSystem} {output : Output}
    {fault : Fault} (h : Refuses root config target files fault) :
    targetEffect root config request.strictly now target files output =
      (.error fault, files, output) := by
  obtain ⟨manifest, finding, hloaded, hfound, hnone⟩ := h
  unfold targetEffect
  rw [prepare_of_unchosen hloaded]
  rw [hfound]
  exact choice_strict_of_unusable hnone

/-- A strict step is the lenient one, and then a success is a signed one; or it refuses its target
with nothing done, and then a success of the lenient step is an unsigned one. -/
theorem targetEffect_strictly (root : String) (config : Config) (request : Request)
    (now : Instant) (target : Target) (files : FileSystem) (output : Output) :
    (targetEffect root config request.strictly now target files output =
        targetEffect root config request.leniently now target files output
      ∧ ∀ entry, (targetEffect root config request.leniently now target files output).1 =
          .ok entry → entry.isSigned)
    ∨ (∃ fault, Refuses root config target files fault
        ∧ targetEffect root config request.strictly now target files output =
          (.error fault, files, output))
      ∧ ∀ entry, (targetEffect root config request.leniently now target files output).1 =
          .ok entry → entry.isSigned = false := by
  cases hloaded : Manifest.ofFile files (Path.join root (config.settings target).manifest) with
  | error fault =>
    -- the manifest is loaded before the search, so its fault comes first
    left
    unfold targetEffect
    rw [prepare_of_unloaded hloaded, prepare_of_unloaded hloaded]
    exact ⟨rfl, fun entry h => by cases h⟩
  | ok manifest =>
    -- a finding that is not usable is where the two ways part
    by_cases hunusable : ∃ finding,
        (Signature.search files root (config.settings target).signaturePattern).2 = .ok finding
          ∧ usable? finding = none
    · right
      obtain ⟨finding, hfound, hnone⟩ := hunusable
      have hrefuses := Refuses.intro manifest finding hloaded hfound hnone
      refine ⟨⟨_, hrefuses, targetEffect_of_refuses hrefuses⟩, fun entry h => ?_⟩
      -- the lenient step has searched the same files, so its entry is unsigned
      obtain ⟨other, hother, hsigned⟩ := isSigned_of_targetEffect h
      obtain rfl := Except.ok.inj (hfound.symm.trans hother)
      rw [hsigned, hnone]
      rfl
    · left
      have husable : ∀ finding,
          (Signature.search files root (config.settings target).signaturePattern).2 =
            .ok finding → usable? finding ≠ none :=
        fun finding hfound hnone => hunusable ⟨finding, hfound, hnone⟩
      refine ⟨?_, fun entry h => ?_⟩
      · unfold targetEffect
        rw [prepare_strictly (choice_strict husable)]
        rfl
      · obtain ⟨finding, hfound, hsigned⟩ := isSigned_of_targetEffect h
        rw [hsigned]
        exact Option.isSome_iff_ne_none.mpr (husable finding hfound)

/-- The step of a target as its effect, without the reports. -/
theorem exec_announceTarget_eq (root : String) (config : Config) (request : Request)
    (now : Instant) (target : Target) (session : Session) :
    (exec (announceTarget root config request now target) session).1 =
        (targetEffect root config request now target session.files session.output).1
      ∧ (exec (announceTarget root config request now target) session).2.files =
        (targetEffect root config request now target session.files session.output).2.1
      ∧ (exec (announceTarget root config request now target) session).2.output =
        (targetEffect root config request now target session.files session.output).2.2 := by
  obtain ⟨events, heffect⟩ := exec_announceTarget root config request now target session
  rw [heffect]
  exact ⟨rfl, rfl, rfl⟩

/-- The step of a target under either strictness, from sessions in the same state. -/
theorem exec_announceTarget_strictly (root : String) (config : Config) (request : Request)
    (now : Instant) (target : Target) {first second : Session} (h : SameState first second) :
    (Alongside SameState
        (exec (announceTarget root config request.strictly now target) first)
        (exec (announceTarget root config request.leniently now target) second)
      ∧ ∀ entry, (exec (announceTarget root config request.leniently now target) second).1 =
          .ok entry → entry.isSigned)
    ∨ (∃ fault, Refuses root config target first.files fault
        ∧ (exec (announceTarget root config request.strictly now target) first).1 = .error fault
        ∧ SameState (exec (announceTarget root config request.strictly now target) first).2 first)
      ∧ ∀ entry, (exec (announceTarget root config request.leniently now target) second).1 =
          .ok entry → entry.isSigned = false := by
  obtain ⟨hstrict, hfiles, houtput⟩ :=
    exec_announceTarget_eq root config request.strictly now target first
  obtain ⟨hlenient, hfiles', houtput'⟩ :=
    exec_announceTarget_eq root config request.leniently now target second
  -- a step reads the files and the output only, and these are the same
  rw [← h.1, ← h.2] at hlenient hfiles' houtput'
  unfold Alongside SameState
  rw [hstrict, hfiles, houtput, hlenient, hfiles', houtput']
  rcases targetEffect_strictly root config request now target first.files first.output with
    ⟨heffect, hsigned⟩ | ⟨⟨fault, hrefuses, heffect⟩, hunsigned⟩
  · left
    rw [heffect]
    exact ⟨⟨rfl, rfl, rfl⟩, hsigned⟩
  · right
    rw [heffect]
    exact ⟨⟨fault, hrefuses, rfl, rfl, rfl⟩, hunsigned⟩

/-! ## §3 Targets -/

/-- Where a strict run over targets stops beside the lenient one: both have completed the targets
before one of them alike, each with a signature, and that one is refused with nothing done. -/
inductive Refused (root : String) (config : Config) (request : Request) (now : Instant)
    (targets : List Target) (first second : Session) : Fault → Session → Prop
  | intro (done later : List Target) (target : Target) (entries : List Entry)
      {between between' after : Session} {fault : Fault}
      (order : targets = done ++ target :: later)
      (strict : exec (done.mapM (announceTarget root config request.strictly now)) first =
        (.ok entries, between))
      (lenient : exec (done.mapM (announceTarget root config request.leniently now)) second =
        (.ok entries, between'))
      (alike : SameState between between')
      (signed : ∀ entry ∈ entries, entry.isSigned)
      (refuses : Refuses root config target between.files fault)
      (unwritten : SameState after between) :
      Refused root config request now targets first second fault after

/-- A first target that is completed alike under either strictness. -/
theorem Refused.cons {target : Target} {targets : List Target} {entry : Entry}
    {first second between between' after : Session} {fault : Fault}
    (hstrict : exec (announceTarget root config request.strictly now target) first =
      (.ok entry, between))
    (hlenient : exec (announceTarget root config request.leniently now target) second =
      (.ok entry, between'))
    (hsigned : entry.isSigned)
    (h : Refused root config request now targets between between' fault after) :
    Refused root config request now (target :: targets) first second fault after := by
  obtain ⟨done, later, refused, entries, rfl, hdone, hdone', halike, hentries, hrefuses,
    hunwritten⟩ := h
  refine .intro (target :: done) later refused (entry :: entries) rfl ?_ ?_ halike
    (List.forall_mem_cons.mpr ⟨hsigned, hentries⟩) hrefuses hunwritten
  · rw [exec_mapM_cons, hstrict]
    dsimp only
    rw [hdone]
    rfl
  · rw [exec_mapM_cons, hlenient]
    dsimp only
    rw [hdone']
    rfl

/-- A run over targets under either strictness: the same all along, and then a success is signed
throughout; or refused at one of the targets, and then a success of the lenient run is not. -/
theorem exec_targets_strictly (root : String) (config : Config) (request : Request)
    (now : Instant) (targets : List Target) {first second : Session}
    (h : SameState first second) :
    (Alongside SameState
        (exec (targets.mapM (announceTarget root config request.strictly now)) first)
        (exec (targets.mapM (announceTarget root config request.leniently now)) second)
      ∧ ∀ entries,
          (exec (targets.mapM (announceTarget root config request.leniently now)) second).1 =
            .ok entries → ∀ entry ∈ entries, entry.isSigned)
    ∨ (∃ fault,
        (exec (targets.mapM (announceTarget root config request.strictly now)) first).1 =
          .error fault
        ∧ Refused root config request now targets first second fault
          (exec (targets.mapM (announceTarget root config request.strictly now)) first).2)
      ∧ ∀ entries,
          (exec (targets.mapM (announceTarget root config request.leniently now)) second).1 =
            .ok entries → ∃ entry ∈ entries, entry.isSigned = false := by
  -- on the targets, for any two sessions in the same state
  induction targets generalizing first second with
  | nil =>
    left
    rw [List.mapM_nil, List.mapM_nil, exec_pure, exec_pure]
    refine ⟨⟨rfl, h⟩, fun entries hok => ?_⟩
    obtain rfl := Except.ok.inj hok
    simp
  | cons target targets ih =>
    rw [exec_mapM_cons, exec_mapM_cons]
    have hstep := exec_announceTarget_strictly root config request now target h
    cases hstrict : exec (announceTarget root config request.strictly now target) first with
    | mk result between =>
    cases hlenient : exec (announceTarget root config request.leniently now target) second with
    | mk result' between' =>
    rw [hstrict, hlenient] at hstep
    rcases hstep with
      ⟨⟨hsame, halike⟩, hsigned⟩ | ⟨⟨fault, hrefuses, hfault, hunwritten⟩, hunsigned⟩
    · obtain rfl : result = result' := hsame
      cases result with
      | error fault =>
        -- another error stops both runs at this target
        left
        exact ⟨⟨rfl, halike⟩, fun entries hok => by cases hok⟩
      | ok entry =>
        -- the first target is completed alike and signed, so the others decide
        have hentry : entry.isSigned := hsigned entry rfl
        dsimp only
        rcases ih halike with ⟨⟨hothers, hlast⟩, hall⟩ | ⟨⟨fault, hfault, hrefused⟩, hsome⟩
        · left
          refine ⟨⟨by dsimp only; rw [hothers], hlast⟩, fun entries hok => ?_⟩
          obtain ⟨others, hlater, rfl⟩ := map_eq_ok.mp hok
          exact List.forall_mem_cons.mpr ⟨hentry, hall others hlater⟩
        · right
          refine ⟨⟨fault, by rw [hfault]; rfl, hrefused.cons hstrict hlenient hentry⟩,
            fun entries hok => ?_⟩
          obtain ⟨others, hlater, rfl⟩ := map_eq_ok.mp hok
          obtain ⟨other, hmem, hother⟩ := hsome others hlater
          exact ⟨other, List.mem_cons_of_mem entry hmem, hother⟩
    · -- the refusal stops the strict run here, whatever the lenient one goes on to do
      obtain rfl : result = .error fault := hfault
      right
      refine ⟨⟨fault, rfl, .intro [] targets target [] rfl rfl rfl h (by simp) hrefuses
        hunwritten⟩, fun entries hok => ?_⟩
      cases result' with
      | error fault => cases hok
      | ok entry =>
        obtain ⟨others, -, rfl⟩ := map_eq_ok.mp hok
        exact ⟨entry, List.mem_cons_self, hunsigned entry rfl⟩

/-! ## §4 Announcements -/

/-- Writing the version reads the state of a session and not what was reported. -/
theorem exec_writeInto_alongside (root version : String) (dryRun : Bool)
    (place : String × List String) {first second : Session} (h : SameState first second) :
    Alongside SameState (exec (VersionFiles.writeInto root version dryRun place) first)
      (exec (VersionFiles.writeInto root version dryRun place) second) := by
  obtain ⟨events, hfirst⟩ := exec_writeInto root version dryRun place first
  obtain ⟨events', hsecond⟩ := exec_writeInto root version dryRun place second
  rw [hfirst, hsecond, h.1]
  cases versionEffect root version dryRun place second.files with
  | error fault => exact ⟨rfl, h⟩
  | ok files => exact ⟨rfl, rfl, h.2⟩

/-- The end of an announcement reads the state of a session and not what was reported. -/
theorem exec_announceVersion_alongside (root : String) (config : Config) (request : Request)
    {first second : Session} (h : SameState first second) :
    Alongside SameState (exec (announceVersion root config request) first)
      (exec (announceVersion root config request) second) := by
  unfold announceVersion
  cases request.version? with
  | none => exact ⟨rfl, h⟩
  | some version =>
    dsimp only [VersionFiles.writeVersion]
    rw [exec_mapError, exec_mapError]
    -- each file is written alike, so all of them are
    obtain ⟨_, ⟨hresult, hstate⟩, _⟩ := alongside_mapM (fun _ => SameState)
      (fun place _ _ _ => exec_writeInto_alongside root version request.dryRun place) h
    exact ⟨congrArg (Except.mapError Fault.versionFile) hresult, hstate⟩

/-- An announcement is the run over its targets, and then the version. -/
theorem exec_announce (root : String) (config : Config) (request : Request) (now : Instant)
    (session : Session) :
    exec (announce root config request now) session =
      match exec (request.selector.targets.mapM (announceTarget root config request now))
          session with
      | (.ok entries, between) =>
        ((exec (announceVersion root config request) between).1.map (⟨entries, ·⟩),
          (exec (announceVersion root config request) between).2)
      | (.error fault, between) => (.error fault, between) := by
  unfold announce
  rw [exec_bind]
  rcases exec (request.selector.targets.mapM (announceTarget root config request now)) session
    with ⟨result, between⟩
  cases result with
  | error fault => rfl
  | ok entries =>
    dsimp only
    rw [exec_bind]
    rcases exec (announceVersion root config request) between with ⟨paths, last⟩
    cases paths <;> rfl

/-- An announcement under either strictness goes the same way to its end, and then a success is
signed throughout; or the strict one is refused, and then a success of the lenient one is not. -/
theorem announce_sideBySide (root : String) (config : Config) (request : Request)
    (now : Instant) (session : Session) :
    (Alongside SameState (exec (announce root config request.strictly now) session)
        (exec (announce root config request.leniently now) session)
      ∧ ∀ report, (exec (announce root config request.leniently now) session).1 = .ok report →
          ∀ entry ∈ report.targets, entry.isSigned)
    ∨ (∃ fault, (exec (announce root config request.strictly now) session).1 = .error fault
        ∧ Refused root config request now request.selector.targets session session fault
          (exec (announce root config request.strictly now) session).2)
      ∧ ∀ report, (exec (announce root config request.leniently now) session).1 = .ok report →
          ∃ entry ∈ report.targets, entry.isSigned = false := by
  have hstrict := exec_announce root config request.strictly now session
  have hlenient := exec_announce root config request.leniently now session
  rw [show request.strictly.selector = request.selector from rfl] at hstrict
  rw [show request.leniently.selector = request.selector from rfl] at hlenient
  rw [hstrict, hlenient]
  -- the targets begin in one session, which is in the same state as itself
  have hside := exec_targets_strictly root config request now request.selector.targets
    (⟨rfl, rfl⟩ : SameState session session)
  generalize exec (request.selector.targets.mapM
    (announceTarget root config request.strictly now)) session = strict at hside ⊢
  generalize exec (request.selector.targets.mapM
    (announceTarget root config request.leniently now)) session = lenient at hside ⊢
  obtain ⟨result, between⟩ := strict
  obtain ⟨result', between'⟩ := lenient
  rcases hside with ⟨⟨hresult, hstate⟩, hsigned⟩ | ⟨⟨fault, hfault, hrefused⟩, hunsigned⟩
  · left
    obtain rfl : result = result' := hresult
    cases result with
    | error fault => exact ⟨⟨rfl, hstate⟩, fun report h => by cases h⟩
    | ok entries =>
      -- the version is written alike from the same state
      obtain ⟨hpaths, hlast⟩ := exec_announceVersion_alongside root config request hstate
      refine ⟨⟨congrArg (Except.map (Report.mk entries)) hpaths, hlast⟩, fun report h => ?_⟩
      obtain ⟨paths, -, rfl⟩ := map_eq_ok.mp h
      exact hsigned entries rfl
  · -- the strict run ends with the refusal, and nothing follows it
    right
    obtain rfl : result = .error fault := hfault
    refine ⟨⟨fault, rfl, hrefused⟩, fun report h => ?_⟩
    cases result' with
    | error fault => cases h
    | ok entries =>
      obtain ⟨paths, -, rfl⟩ := map_eq_ok.mp h
      exact hunsigned entries rfl

/-- A strict announcement beside the lenient one of the same request.

It succeeds exactly when the lenient one does with a signature for each target, and both then give
the same report, files and output.  When it fails, the lenient one fails alike, or a target is
refused: both have completed the targets before it, and it is as if nothing had followed them.  And
a target that is refused behind targets that are completed does stop the strict announcement. -/
theorem announce_strictly (root : String) (config : Config) (request : Request) (now : Instant)
    (session : Session) :
    let strict := exec (announce root config request.strictly now) session
    let lenient := exec (announce root config request.leniently now) session
    ((∃ report, strict.1 = .ok report)
        ↔ ∃ report, lenient.1 = .ok report ∧ ∀ entry ∈ report.targets, entry.isSigned)
      ∧ (∀ report, strict.1 = .ok report → Alongside SameState strict lenient)
      ∧ (∀ fault, strict.1 = .error fault → Alongside SameState strict lenient
          ∨ Refused root config request now request.selector.targets session session fault
              strict.2)
      ∧ ∀ done later target entries between fault,
          request.selector.targets = done ++ target :: later →
          exec (done.mapM (announceTarget root config request.strictly now)) session =
            (.ok entries, between) →
          Refuses root config target between.files fault →
          strict.1 = .error fault ∧ SameState strict.2 between := by
  intro strict lenient
  refine ⟨?_, ?_, ?_, ?_⟩
  · -- a success of either run has all targets signed, or there is no success of the strict one
    rcases announce_sideBySide root config request now session with
      ⟨⟨hresult, _⟩, hsigned⟩ | ⟨⟨fault, hfault, _⟩, hunsigned⟩
    · constructor
      · rintro ⟨report, h⟩
        exact ⟨report, hresult ▸ h, hsigned report (hresult ▸ h)⟩
      · rintro ⟨report, h, _⟩
        exact ⟨report, hresult.trans h⟩
    · constructor
      · rintro ⟨report, h⟩
        cases hfault.symm.trans h
      · rintro ⟨report, h, hsigned⟩
        obtain ⟨entry, hmem, hentry⟩ := hunsigned report h
        rw [hsigned entry hmem] at hentry
        cases hentry
  · -- a strict success leaves only the case of two runs alike
    intro report h
    rcases announce_sideBySide root config request now session with
      ⟨halongside, _⟩ | ⟨⟨fault, hfault, _⟩, _⟩
    · exact halongside
    · cases hfault.symm.trans h
  · -- a strict fault is that of the lenient run, or a refusal
    intro fault h
    rcases announce_sideBySide root config request now session with
      ⟨halongside, _⟩ | ⟨⟨other, hother, hrefused⟩, _⟩
    · exact .inl halongside
    · obtain rfl := Except.error.inj (hother.symm.trans h)
      exact .inr hrefused
  · -- the refused step does nothing, and the run stops behind the completed targets
    intro done later target entries between fault horder hdone hrefuses
    obtain ⟨hfault, hfiles, houtput⟩ :=
      exec_announceTarget_eq root config request.strictly now target between
    rw [targetEffect_of_refuses hrefuses] at hfault hfiles houtput
    have htargets := exec_mapM_error later hdone (Prod.ext hfault rfl)
    have hannounce := exec_announce root config request.strictly now session
    rw [show request.strictly.selector = request.selector from rfl, horder] at hannounce
    rw [htargets] at hannounce
    show (exec (announce root config request.strictly now) session).1 = _ ∧ SameState
      (exec (announce root config request.strictly now) session).2 between
    rw [hannounce]
    exact ⟨rfl, hfiles, houtput⟩

end

/-- A configuration with a manifest for each target, and no signature for the second one. -/
def unsignedConfig : Config :=
  let settings (manifest pattern : String) : TargetSettings :=
    ⟨manifest, pattern, "https://x/", ["a"]⟩
  ⟨settings "darwin.json" "app.sig", settings "linux.json" "none.sig",
    settings "windows.json" "app.sig", ⟨"package.json", "conf.json"⟩⟩

/-- A project with three manifests and a signature. -/
def unsignedFiles : FileSystem :=
  let manifest : Node := .file "\x7b\"platforms\":\x7b\"a\":\x7b\x7d\x7d\x7d".toUTF8
  ⟨.directory
    [("darwin.json", manifest), ("linux.json", manifest), ("windows.json", manifest),
      ("app.sig", .file "signed".toUTF8)],
    []⟩

/-- New signatures for every target. -/
def unsignedRequest : Request := ⟨.all, none, none, .lenient, false⟩

theorem announce_strictly_sample :
    let session : Session := ⟨unsignedFiles, ⟨none, []⟩, []⟩
    let strict := exec (announce "." unsignedConfig unsignedRequest.strictly ⟨0, 0⟩) session
    let lenient := exec (announce "." unsignedConfig unsignedRequest.leniently ⟨0, 0⟩) session
    lenient.1 = .ok ⟨[⟨.darwin, "darwin.json", some "./app.sig"⟩, ⟨.linux, "linux.json", none⟩,
        ⟨.windows, "windows.json", some "./app.sig"⟩], []⟩
      ∧ strict.1 = .error (.unsigned .linux "none.sig")
      ∧ Refused "." unsignedConfig unsignedRequest ⟨0, 0⟩ [.darwin, .linux, .windows] session
        session (.unsigned .linux "none.sig") strict.2
      -- the strict run writes the first manifest, and none from the refused target on
      ∧ strict.2.files.readText "./darwin.json" ≠ unsignedFiles.readText "./darwin.json"
      ∧ (∀ path ∈ ["./linux.json", "./windows.json"],
        strict.2.files.readText path = unsignedFiles.readText path)
      ∧ lenient.2.files.readText "./linux.json" ≠ unsignedFiles.readText "./linux.json" := by
  intro session strict lenient
  have hlenient : lenient.1 =
      .ok ⟨[⟨.darwin, "darwin.json", some "./app.sig"⟩, ⟨.linux, "linux.json", none⟩,
        ⟨.windows, "windows.json", some "./app.sig"⟩], []⟩ := by
    decide +kernel
  have hstrict : strict.1 = .error (.unsigned .linux "none.sig") := by
    decide +kernel
  refine ⟨hlenient, hstrict, ?_, by decide +kernel, by decide +kernel, by decide +kernel⟩
  rcases (announce_strictly "." unsignedConfig unsignedRequest ⟨0, 0⟩ session).2.2.1 _ hstrict with
    halike | hrefused
  · cases hstrict.symm.trans (halike.1.trans hlenient)
  · exact hrefused

end Announcement

end UpdateFeed
