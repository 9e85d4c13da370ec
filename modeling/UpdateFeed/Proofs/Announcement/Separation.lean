import UpdateFeed.Proofs.Announcement.Repetition

/-!
# Targets that are announced one by one

An announcement of all targets leaves the files that announcements of the single targets leave, one
after the other and in any order.  Each of these writes the version files once more, and finds them
as it would leave them.

- `Plan.Fits.forTarget`: the part of a plan that is for one target.
- `announce_separately`: an announcement of all targets beside those of the single targets.
-/

namespace UpdateFeed.Announcement

open Run

/-! ## §1 One target of several -/

/-- A request for one target only. -/
def Request.forTarget (request : Request) (target : Target) : Request :=
  { request with selector := .one target }

theorem Apart.mono {files : FileSystem} {signature fewer : String → Prop} {paths : List String}
    (h : Apart files signature paths) (hfewer : ∀ path, fewer path → signature path) :
    Apart files fewer paths where
  regular := h.regular
  distinct := h.distinct
  unsigned path hpath found hfound := h.unsigned path hpath found (hfewer found hfound)

section

variable {root : String} {config : Config} {request : Request} {now : Instant}
  {files : FileSystem} {plan : Plan} {printout : Printout} {made : List Replacement}

/-- The part of a plan that is for one target. -/
def Plan.forTarget (printout : Printout) (plan : Plan) : Plan := ⟨[printout], plan.revisions⟩

theorem Plan.Fits.forTarget (h : plan.Fits root config request now files)
    (hprintout : printout ∈ plan.printouts) :
    (plan.forTarget printout).Fits root config (request.forTarget printout.target) now files where
  targets := rfl
  prepared other hother := by
    obtain rfl := List.mem_singleton.mp hother
    exact h.prepared other hprintout
  places := h.places
  revised := h.revised

/-- What is to be written for one target is apart when all that is to be written is. -/
theorem Apart.forTarget {target : Target} (htarget : target ∈ request.selector.targets)
    (h : Apart files (TakesForSignature root config request files)
      (writtenPaths root config request)) :
    Apart files (TakesForSignature root config (request.forTarget target) files)
      (writtenPaths root config (request.forTarget target)) := by
  -- the manifest of the target is one of those that are written, and so are the version files
  have hpaths : (writtenPaths root config (request.forTarget target)).Sublist
      (writtenPaths root config request) :=
    List.Sublist.append ((List.singleton_sublist.mpr htarget).map _) (List.Sublist.refl _)
  refine (h.sublist hpaths).mono ?_
  rintro path ⟨other, hother, hlists⟩
  obtain rfl := List.mem_singleton.mp hother
  exact ⟨other, htarget, hlists⟩

/-! ## §2 One target after the other -/

/-- A target is announced by itself from some files: to any output without a limit, and with the
entry of a report as its own. -/
def AnnouncesOne (root : String) (config : Config) (request : Request) (now : Instant)
    (report : Report) (target : Target) (before after : FileSystem) : Prop :=
  ∀ session : Session, session.files = before → session.output.limit? = none →
    ∃ entry last, entry ∈ report.targets ∧ entry.target = target
      ∧ exec (announce root config (request.forTarget target) now) session =
        (.ok ⟨[entry], report.versionFiles⟩, last)
      ∧ last.files = after

/-- When some replacements of a plan are made, one of its targets is announced by itself, which
makes the replacements that are for this target. -/
theorem Plan.Fits.announcesOne (h : plan.Fits root config request now files)
    (hapart : Apart files (TakesForSignature root config request files)
      (writtenPaths root config request))
    (hwhole : ∀ path ∈ writtenPaths root config request, HoldsWholeNumbers files path)
    (hmade : made ⊆ plan.replacements root config request.dryRun files)
    (hprintout : printout ∈ plan.printouts) :
    AnnouncesOne root config request now (plan.report config) printout.target
      (files.overwritten made)
      (files.overwritten
        (made ++ (plan.forTarget printout).replacements root config request.dryRun files)) := by
  intro session hfiles houtput
  -- the plan fits also behind what was made, and at the same time it is the same plan
  have hfits : plan.Fits root config request now session.files := by
    rw [hfiles, ← h.dated_self]
    exact h.again hapart hwhole hmade now
  -- the files are still files of their own
  have hapart' : Apart session.files (TakesForSignature root config request session.files)
      (writtenPaths root config request) := by
    rw [hfiles, takesForSignature_overwritten]
    exact hapart.overwritten made
  obtain ⟨last, hlast, hlastFiles, -⟩ := announce_of_fits
    (hapart'.forTarget (h.targets ▸ List.mem_map_of_mem hprintout)) (hfits.forTarget hprintout)
    (Output.hasRoom_of_unlimited houtput)
  refine ⟨printout.entry config, last, List.mem_map_of_mem hprintout, rfl, hlast, ?_⟩
  rw [hlastFiles, hfiles, Plan.replacements_overwritten, FileSystem.overwritten_append]
  rfl

/-- What is prepared for a target is given by the files. -/
theorem Printout.Prepared.eq {other : Printout}
    (h : printout.Prepared root config request now files)
    (hother : other.Prepared root config request now files)
    (htarget : other.target = printout.target) : other = printout := by
  obtain ⟨target, manifest, signature?⟩ := printout
  obtain ⟨target', manifest', signature?'⟩ := other
  obtain rfl : target' = target := htarget
  obtain ⟨rfl, rfl⟩ := Prod.mk.inj (Except.ok.inj (hother.symm.trans h))
  rfl

theorem Plan.forTarget_subset (hprintout : printout ∈ plan.printouts) (dryRun : Bool) :
    (plan.forTarget printout).replacements root config dryRun files ⊆
      plan.replacements root config dryRun files := by
  have hrewritings : (plan.forTarget printout).rewritings root config ⊆
      plan.rewritings root config := by
    intro rewriting hmem
    rcases List.mem_append.mp hmem with hmem | hmem
    · obtain rfl := List.mem_singleton.mp hmem
      exact List.mem_append_left _ (List.mem_map_of_mem hprintout)
    · exact List.mem_append_right _ hmem
  intro replacement hmem
  obtain ⟨rewriting, hrewriting, hreplacement⟩ := List.mem_flatMap.mp hmem
  exact List.mem_flatMap.mpr ⟨rewriting, hrewritings hrewriting, hreplacement⟩

/-- The parts of a plan that are for its targets are all of it, if it has any target. -/
theorem Plan.replacements_subset {more : List Replacement} {dryRun : Bool}
    (hprintouts : plan.printouts ≠ [])
    (h : ∀ printout ∈ plan.printouts,
      (plan.forTarget printout).replacements root config dryRun files ⊆ more) :
    plan.replacements root config dryRun files ⊆ more := by
  intro replacement hmem
  obtain ⟨rewriting, hrewriting, hreplacement⟩ := List.mem_flatMap.mp hmem
  rcases List.mem_append.mp hrewriting with hmanifest | hrevision
  · obtain ⟨printout, hprintout, rfl⟩ := List.mem_map.mp hmanifest
    exact h printout hprintout (List.mem_flatMap.mpr
      ⟨_, List.mem_append_left _ (List.mem_singleton_self _), hreplacement⟩)
  · -- the version files are part of what is for any of the targets
    obtain ⟨printout, hprintout⟩ := List.exists_mem_of_ne_nil _ hprintouts
    exact h printout hprintout (List.mem_flatMap.mpr
      ⟨_, List.mem_append_right _ hrevision, hreplacement⟩)

/-- The targets of a plan are announced one by one, which makes the replacements that are for any of
them. -/
theorem Plan.Fits.announcesEach (h : plan.Fits root config request now files)
    (hapart : Apart files (TakesForSignature root config request files)
      (writtenPaths root config request))
    (hwhole : ∀ path ∈ writtenPaths root config request, HoldsWholeNumbers files path)
    {targets : List Target} (htargets : targets ⊆ request.selector.targets)
    (hmade : made ⊆ plan.replacements root config request.dryRun files) :
    ∃ more, more ⊆ plan.replacements root config request.dryRun files
      ∧ Steps (AnnouncesOne root config request now (plan.report config)) targets
        (files.overwritten made) (files.overwritten (made ++ more))
      ∧ ∀ printout ∈ plan.printouts, printout.target ∈ targets →
        (plan.forTarget printout).replacements root config request.dryRun files ⊆ more := by
  -- on the targets, with all replacements that were made before them
  induction targets generalizing made with
  | nil => exact ⟨[], by simp, by simpa using Steps.nil _, by simp⟩
  | cons target targets ih =>
    obtain ⟨htarget, hothers⟩ := List.cons_subset.mp htargets
    rw [← h.targets] at htarget
    obtain ⟨printout, hprintout, rfl⟩ := List.mem_map.mp htarget
    have hone : (plan.forTarget printout).replacements root config request.dryRun files ⊆
        plan.replacements root config request.dryRun files :=
      Plan.forTarget_subset hprintout request.dryRun
    obtain ⟨more, hmore, hsteps, heach⟩ := ih hothers (List.append_subset.mpr ⟨hmade, hone⟩)
    refine ⟨_ ++ more, List.append_subset.mpr ⟨hone, hmore⟩,
      .cons (h.announcesOne hapart hwhole hmade hprintout) ?_, fun other hother hmem => ?_⟩
    · rwa [← List.append_assoc]
    · -- what is for the first target is made now, and what is for the others later
      rcases List.mem_cons.mp hmem with hsame | hmem
      · obtain rfl := (h.prepared printout hprintout).eq (h.prepared other hother) hsame
        exact List.subset_append_left _ _
      · exact List.Subset.trans (heach other hother hmem) (List.subset_append_right _ _)

/-- An announcement of all targets that succeeded leaves the files that announcements of the single
targets leave: made one by one, in any order and any of them more than once, each of them succeeds,
with what the report of all says of its target. -/
theorem announce_separately {session after : Session} {report : Report} {targets : List Target}
    (hselector : request.selector = .all)
    (hapart : Apart session.files (TakesForSignature root config request session.files)
      (writtenPaths root config request))
    (hwhole : ∀ path ∈ writtenPaths root config request, HoldsWholeNumbers session.files path)
    (hall : exec (announce root config request now) session = (.ok report, after))
    (htargets : Target.all ⊆ targets) :
    Steps (AnnouncesOne root config request now report) targets session.files after.files := by
  -- the announcement of all goes by a plan, and each single one by a part of it
  obtain ⟨plan, hfits, rfl, hafter, -⟩ := exists_plan hapart hall
  have hselected : request.selector.targets = Target.all := by
    rw [hselector]
    rfl
  have hnamed : targets ⊆ request.selector.targets :=
    fun target _ => hselected ▸ Target.mem_all target
  obtain ⟨more, hmore, hsteps, heach⟩ :=
    hfits.announcesEach hapart hwhole hnamed (List.nil_subset _)
  have hprintouts : plan.printouts ≠ [] := by
    intro hnone
    have hnames := hfits.targets
    rw [hselected, hnone] at hnames
    cases hnames
  -- all targets are named, so every part of the plan is carried out
  have hreplaced : plan.replacements root config request.dryRun session.files ⊆ more :=
    Plan.replacements_subset hprintouts fun printout hprintout =>
      heach printout hprintout (htargets (Target.mem_all printout.target))
  rw [hafter, ← FileSystem.overwritten_of_mem_iff (hfits.consistent hapart request.dryRun)
    fun replacement => ⟨fun hmem => hmore hmem, fun hmem => hreplaced hmem⟩]
  simpa using hsteps

end

/-! ## §3 A project with three manifests -/

/-- A configuration with a manifest for each target. -/
def threefoldConfig : Config :=
  let settings (manifest : String) : TargetSettings := ⟨manifest, "*.sig", "https://x/", []⟩
  ⟨settings "darwin.json", settings "linux.json", settings "windows.json",
    ⟨"package.json", "conf.json"⟩⟩

/-- A project with three manifests and the version files. -/
def threefoldFiles : FileSystem :=
  ⟨.directory
    [("darwin.json", .file "\x7b\x7d".toUTF8), ("linux.json", .file "\x7b\x7d".toUTF8),
      ("windows.json", .file "\x7b\x7d".toUTF8), ("package.json", .file "\x7b\x7d".toUTF8),
      ("conf.json", .file "\x7b\"package\":\x7b\x7d\x7d".toUTF8)],
    []⟩

/-- A version for every target. -/
def threefoldRequest : Request := ⟨.all, some "2.0", none, .lenient, false⟩

theorem exists_file_of_isFile {files : FileSystem} {path : String} (h : files.isFile path = true) :
    ∃ content, files.node? path = .ok (.file content) := by
  unfold FileSystem.isFile at h
  split at h
  · exact ⟨_, ‹_›⟩
  · cases h

/-- The files of the project are files of their own. -/
theorem apart_threefoldFiles :
    Apart threefoldFiles (TakesForSignature "." threefoldConfig threefoldRequest threefoldFiles)
      (writtenPaths "." threefoldConfig threefoldRequest) where
  regular := by
    intro path hpath
    have hpaths : writtenPaths "." threefoldConfig threefoldRequest =
        ["darwin.json", "linux.json", "windows.json", "package.json", "conf.json"].map
          ("./" ++ ·) := by
      decide +kernel
    have hplaces : ∀ name ∈ ["darwin.json", "linux.json", "windows.json", "package.json",
        "conf.json"], threefoldFiles.locate ("./" ++ name) = .ok [name]
          ∧ threefoldFiles.destination ("./" ++ name) = .ok [name]
          ∧ threefoldFiles.isFile ("./" ++ name) = true := by
      decide +kernel
    rw [hpaths] at hpath
    obtain ⟨name, hname, rfl⟩ := List.mem_map.mp hpath
    obtain ⟨hlocate, hplace, hfile⟩ := hplaces name hname
    obtain ⟨content, hcontent⟩ := exists_file_of_isFile hfile
    exact ⟨[name], content, hlocate, hplace, hcontent⟩
  distinct := by decide +kernel
  unsigned := by
    rintro path hpath found ⟨target, -, events, paths, hlisted, hfound⟩
    -- there is no signature in the project
    have hnone : ∀ target : Target, (Signature.matchingPaths threefoldFiles "."
        (threefoldConfig.settings target).signaturePattern).map Prod.snd = .ok [] := by
      intro target
      cases target <;> decide +kernel
    have hpaths := hnone target
    rw [hlisted] at hpaths
    obtain rfl : paths = [] := Except.ok.inj hpaths
    cases hfound

theorem announce_separately_sample :
    let all := exec (announce "." threefoldConfig threefoldRequest ⟨0, 0⟩)
      ⟨threefoldFiles, ⟨none, []⟩, []⟩
    let report : Report :=
      ⟨[⟨.darwin, "darwin.json", none⟩, ⟨.linux, "linux.json", none⟩,
        ⟨.windows, "windows.json", none⟩], ["package.json", "conf.json"]⟩
    threefoldRequest.selector = .all
      ∧ Apart threefoldFiles
        (TakesForSignature "." threefoldConfig threefoldRequest threefoldFiles)
        (writtenPaths "." threefoldConfig threefoldRequest)
      ∧ (∀ path ∈ writtenPaths "." threefoldConfig threefoldRequest,
        HoldsWholeNumbers threefoldFiles path)
      ∧ all.1 = .ok report
      ∧ Target.all ⊆ [.windows, .darwin, .linux]
      ∧ Steps (AnnouncesOne "." threefoldConfig threefoldRequest ⟨0, 0⟩ report)
        [.windows, .darwin, .linux] threefoldFiles all.2.files := by
  intro all report
  have hwhole : ∀ path ∈ writtenPaths "." threefoldConfig threefoldRequest,
      HoldsWholeNumbers threefoldFiles path := by
    decide +kernel
  have hall : all.1 = .ok report := by
    decide +kernel
  have htargets : Target.all ⊆ [.windows, .darwin, .linux] := by
    decide
  exact ⟨rfl, apart_threefoldFiles, hwhole, hall, htargets,
    announce_separately rfl apart_threefoldFiles hwhole (Prod.ext hall rfl) htargets⟩

end UpdateFeed.Announcement
