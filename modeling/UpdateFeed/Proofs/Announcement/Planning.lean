import UpdateFeed.Proofs.Announcement.Printing
import UpdateFeed.Proofs.FileTree.Overwriting

/-!
# Announcements that are planned

Where the files to be written are files of their own, no step reads what a step before it has
written.  Then all that an announcement does can be told from the files it starts from: the manifest
and the signature of each target, and what the version files become.  An announcement succeeds when
there is such a plan, and the files after it are those before it with some files replaced.

- `steps_rewrites_iff`: steps that read nothing that those before them write.
- `Plan.Fits`: when a plan is what an announcement from some files does.
- `announce_of_fits`, `exists_plan`: an announcement succeeds just when there is a plan for it.
-/

namespace UpdateFeed

/-! ## §1 Files that are rewritten -/

/-- A text for the file at a path. -/
structure Rewriting where
  path : String
  text : String

namespace Rewriting

variable {rewriting : Rewriting} {dryRun : Bool} {files : FileSystem} {replacement : Replacement}

/-- What a rewriting makes of the files, which is nothing in a dry run. -/
def Makes (rewriting : Rewriting) (dryRun : Bool) (before after : FileSystem) : Prop :=
  if dryRun then after = before else before.replaceText rewriting.path rewriting.text = .ok after

/-- The replacement that a rewriting is, by the place that its path leads to. -/
def replacements (rewriting : Rewriting) (dryRun : Bool) (files : FileSystem) :
    List Replacement :=
  if dryRun then []
  else
    match files.locate rewriting.path with
    | .ok place => [⟨place, rewriting.text.toUTF8⟩]
    | .error _ => []

theorem mem_replacements : replacement ∈ rewriting.replacements dryRun files ↔
    dryRun = false ∧ files.locate rewriting.path = .ok replacement.place
      ∧ replacement.content = rewriting.text.toUTF8 := by
  obtain ⟨place, content⟩ := replacement
  unfold replacements
  cases dryRun with
  | true => simp
  | false =>
    cases files.locate rewriting.path with
    | error fault => simp
    | ok found => simp [eq_comm]

/-- Where paths lead does not depend on what the files hold, so replacements do not either. -/
theorem replacements_overwritten (made : List Replacement) :
    rewriting.replacements dryRun (files.overwritten made) =
      rewriting.replacements dryRun files := by
  unfold replacements
  rw [(FileSystem.agree_overwritten files made).locate]

end Rewriting

namespace Announcement

open Run

/-- Replacements of files that no path among those to be read leads to. -/
def Clear (files : FileSystem) (reads : String → Prop) (made : List Replacement) : Prop :=
  ∀ path, reads path → ∀ replacement ∈ made, files.locate path ≠ .ok replacement.place

section

variable {files after : FileSystem} {signature : String → Prop} {made : List Replacement}
  {rewriting : Rewriting} {paths : List String} {dryRun : Bool} {path : String}

theorem Clear.agree {reads : String → Prop} (h : Clear files reads made) :
    files.Agree reads (files.overwritten made) :=
  (FileSystem.agree_overwritten files made).mono h

/-- The paths of an announcement are files of their own whatever is written. -/
theorem Apart.overwritten (h : Apart files signature paths) (made : List Replacement) :
    Apart (files.overwritten made) signature paths := by
  have hagree := FileSystem.agree_overwritten files made
  refine ⟨fun path hpath => ?_, ?_, fun path hpath found hfound => ?_⟩
  · obtain ⟨place, content, hlocate, hplace, hfile⟩ := h.regular path hpath
    obtain ⟨other, hother⟩ := hagree.exists_file hfile
    exact ⟨place, other, (hagree.locate path).trans hlocate,
      (hagree.destination path).trans hplace, hother⟩
  · exact h.distinct.imp fun hne => by rwa [hagree.locate, hagree.locate]
  · rw [hagree.locate, hagree.locate]
    exact h.unsigned path hpath found hfound

theorem Apart.sublist {fewer : List String} (h : Apart files signature paths)
    (hfewer : fewer.Sublist paths) : Apart files signature fewer where
  regular path hpath := h.regular path (hfewer.subset hpath)
  distinct := h.distinct.sublist hfewer
  unsigned path hpath := h.unsigned path (hfewer.subset hpath)

/-- Writing one of some files of their own is clear of the others and of the signatures. -/
theorem Apart.clear (h : Apart files signature paths) (hpath : rewriting.path ∈ paths)
    (hne : files.locate rewriting.path ≠ files.locate path) :
    Clear files (Reads signature [path]) (rewriting.replacements dryRun files) := by
  rintro other hother replacement hmem hlocate
  obtain ⟨-, hplace, -⟩ := Rewriting.mem_replacements.mp hmem
  -- the other file lies elsewhere, and a signature is no file that is written
  rcases hother with hother | hother
  · obtain rfl := List.mem_singleton.mp hother
    exact hne (hplace.trans hlocate.symm)
  · exact h.unsigned rewriting.path hpath other hother (hlocate.trans hplace.symm)

/-- One of some files of their own can be rewritten, which is a replacement. -/
theorem Apart.makes_iff (h : Apart files signature paths) (hpath : rewriting.path ∈ paths) :
    rewriting.Makes dryRun (files.overwritten made) after ↔
      after = files.overwritten (made ++ rewriting.replacements dryRun files) := by
  unfold Rewriting.Makes Rewriting.replacements
  cases dryRun with
  | true => simp
  | false =>
    -- a path of its own leads to one place, whatever was written before
    obtain ⟨place, content, hlocate, hplace, hfile⟩ := h.regular rewriting.path hpath
    simp only [Bool.false_eq_true, if_false, hlocate]
    rw [FileSystem.replaceText_overwritten hfile hlocate hplace, Except.ok.injEq, eq_comm]

/-! ## §2 Steps that are independent -/

variable {ι : Type} {prepared : ι → FileSystem → Prop} {writes : ι → Rewriting}

/-- A step that is prepared from the files before it, and rewrites one of them. -/
structure Rewrites (dryRun : Bool) (prepared : ι → FileSystem → Prop) (writes : ι → Rewriting)
    (item : ι) (before after : FileSystem) : Prop where
  prepared : prepared item before
  made : (writes item).Makes dryRun before after

/-- Steps that write files of their own and read nothing that the others write.  They are prepared
from the files at the start as well, and replace these files. -/
theorem steps_rewrites_iff (made : List Replacement) (after : FileSystem) {items : List ι}
    (hapart : Apart files signature ((items.map writes).map (·.path)))
    (hprepared : ∀ item ∈ items, ∀ second,
      files.Agree (Reads signature [(writes item).path]) second →
        (prepared item second ↔ prepared item files))
    (hmade : ∀ item ∈ items, Clear files (Reads signature [(writes item).path]) made) :
    Steps (Rewrites dryRun prepared writes) items (files.overwritten made) after ↔
      (∀ item ∈ items, prepared item files)
        ∧ after = files.overwritten
          (made ++ (items.map writes).flatMap (·.replacements dryRun files)) := by
  -- on the items, with all that was made before them
  induction items generalizing made with
  | nil =>
    rw [List.map_nil, List.flatMap_nil, List.append_nil]
    constructor
    · intro h
      cases h
      exact ⟨by simp, rfl⟩
    · rintro ⟨-, rfl⟩
      exact .nil _
  | cons item items ih =>
    rw [List.map_cons, List.map_cons] at hapart
    obtain ⟨hitem, hitems⟩ := List.forall_mem_cons.mp hmade
    -- one step is prepared from the files at the start, since it reads nothing that was made
    have hstep : ∀ second, Rewrites dryRun prepared writes item (files.overwritten made) second ↔
        prepared item files ∧ second = files.overwritten
          (made ++ (writes item).replacements dryRun files) := by
      intro second
      rw [← hprepared item List.mem_cons_self _ hitem.agree,
        ← hapart.makes_iff List.mem_cons_self]
      exact ⟨fun h => ⟨h.prepared, h.made⟩, fun h => ⟨h.1, h.2⟩⟩
    -- what is made by then is clear of the others, with what this step makes
    have hlater : ∀ other ∈ items, Clear files (Reads signature [(writes other).path])
        (made ++ (writes item).replacements dryRun files) := by
      intro other hother path hpath replacement hmem
      rcases List.mem_append.mp hmem with hmem | hmem
      · exact hitems other hother path hpath replacement hmem
      · exact hapart.clear List.mem_cons_self ((List.pairwise_cons.mp hapart.distinct).1 _
          (List.mem_map_of_mem (List.mem_map_of_mem hother))) path hpath replacement hmem
    have hrest := ih _ hapart.tail (fun other hother => hprepared other
      (List.mem_cons_of_mem item hother)) hlater
    rw [List.map_cons, List.flatMap_cons, ← List.append_assoc, List.forall_mem_cons]
    constructor
    · rintro (_ | ⟨hfirst, hothers⟩)
      obtain ⟨hready, rfl⟩ := (hstep _).mp hfirst
      obtain ⟨hall, hafter⟩ := hrest.mp hothers
      exact ⟨⟨hready, hall⟩, hafter⟩
    · rintro ⟨⟨hready, hall⟩, hafter⟩
      exact .cons ((hstep _).mpr ⟨hready, rfl⟩) (hrest.mpr ⟨hall, hafter⟩)

end

/-! ## §3 Targets and version files -/

section

variable {root : String} {config : Config} {request : Request} {now : Instant}

/-- The rewriting of a manifest by what its target prints. -/
def Printout.rewriting (root : String) (config : Config) (printout : Printout) : Rewriting :=
  ⟨manifestPath root config printout.target, printout.text⟩

/-- Whether a printout is what its target prints, as told from some files. -/
def Printout.Prepared (root : String) (config : Config) (request : Request) (now : Instant)
    (printout : Printout) (files : FileSystem) : Prop :=
  prepare root config request now printout.target files =
    .ok (printout.manifest, printout.signature?)

theorem saved_eq_ok_iff {manifest : Manifest} {files after : FileSystem} :
    saved request manifest files = .ok after ↔
      Rewriting.Makes ⟨manifest.document.path, manifest.render⟩ request.dryRun files after := by
  unfold saved Rewriting.Makes
  cases request.dryRun with
  | true => simp [eq_comm]
  | false =>
    simp only [Bool.false_eq_true, if_false]
    rw [mapError_eq_ok, Manifest.save, mapError_eq_ok]
    exact Document.save_eq_ok_iff

/-- A target prints when its manifest is prepared and rewritten. -/
theorem prints_eq : Prints root config request now =
    Rewrites request.dryRun (Printout.Prepared root config request now)
      (Printout.rewriting root config) := by
  funext printout before after
  -- what is saved is the text of the manifest at the path of its target
  have hsaved (h : printout.Prepared root config request now before) :
      saved request printout.manifest before = .ok after ↔
        (printout.rewriting root config).Makes request.dryRun before after := by
    rw [saved_eq_ok_iff, path_of_prepare h]
    rfl
  refine propext ⟨fun h => ?_, fun h => ?_⟩
  · exact ⟨h.prepared, (hsaved h.prepared).mp h.saved⟩
  · exact prints_of_saved h.prepared ((hsaved h.prepared).mpr h.made)

/-- A version file with what it becomes. -/
structure Revision where
  place : String × List String
  document : Document

/-- The rewriting of a version file. -/
def Revision.rewriting (root : String) (revision : Revision) : Rewriting :=
  ⟨versionPath root revision.place, revision.document.render⟩

/-- Whether a revision is the version file with the version of a request in it, as told from some
files. -/
def Revision.Prepared (root : String) (request : Request) (revision : Revision)
    (files : FileSystem) : Prop :=
  ∃ version document, request.version? = some version
    ∧ Document.ofFile files (versionPath root revision.place) = .ok document
    ∧ document.putString revision.place.2 "version" version = .ok revision.document

/-- The step of a version file that is revised. -/
def Revises (root : String) (request : Request) : Revision → FileSystem → FileSystem → Prop :=
  Rewrites request.dryRun (Revision.Prepared root request) (Revision.rewriting root)

/-- A version is written into a file when the file is revised. -/
theorem versionEffect_eq_ok_iff {version : String} (hversion : request.version? = some version)
    {place : String × List String} {before after : FileSystem} :
    versionEffect root version request.dryRun place before = .ok after ↔
      ∃ revision : Revision, revision.place = place
        ∧ Revises root request revision before after := by
  -- a document that was loaded and edited is saved at the path it was loaded from
  have hkept {document edited : Document}
      (hloaded : Document.ofFile before (versionPath root place) = .ok document)
      (hedited : document.putString place.2 "version" version = .ok edited) :
      (if request.dryRun then .ok before else edited.save before) = .ok after ↔
        Rewriting.Makes ⟨versionPath root place, edited.render⟩ request.dryRun before after := by
    obtain ⟨changed, -, rfl⟩ := Document.putString_eq_ok_iff.mp hedited
    have hpath : document.path = versionPath root place := Document.path_of_ofFile hloaded
    unfold Rewriting.Makes
    cases request.dryRun with
    | true => simp [eq_comm]
    | false =>
      simp only [Bool.false_eq_true, if_false]
      rw [← hpath]
      exact Document.save_eq_ok_iff
  constructor
  · intro h
    obtain ⟨document, hloaded, h⟩ := exists_of_bind_eq_ok h
    obtain ⟨edited, hedited, h⟩ := exists_of_bind_eq_ok h
    exact ⟨⟨place, edited⟩, rfl, ⟨version, document, hversion, hloaded, hedited⟩,
      (hkept hloaded hedited).mp h⟩
  · rintro ⟨revision, rfl, ⟨other, document, hother, hloaded, hedited⟩, hmade⟩
    obtain rfl := Option.some.inj (hversion.symm.trans hother)
    unfold versionEffect
    rw [show Path.join root revision.place.1 = versionPath root revision.place from rfl, hloaded,
      ok_bind, hedited, ok_bind]
    exact (hkept hloaded hedited).mpr hmade

/-! ## §4 Runs -/

/-- Targets that are all announced have printed, and their lines were taken. -/
theorem exists_printouts_of_exec {targets : List Target} {session after : Session}
    {entries : List Entry}
    (h : exec (targets.mapM (announceTarget root config request now)) session =
      (.ok entries, after)) :
    ∃ printouts : List Printout, printouts.map (·.target) = targets
      ∧ entries = printouts.map (·.entry config)
      ∧ Steps (Prints root config request now) printouts session.files after.files
      ∧ after.output = session.output.holding (printed printouts) := by
  induction targets generalizing session entries with
  | nil =>
    obtain ⟨rfl, rfl⟩ : [] = entries ∧ session = after := by simpa using h
    exact ⟨[], rfl, rfl, .nil _, by simp [printed, Output.holding]⟩
  | cons target targets ih =>
    rw [List.mapM_cons] at h
    obtain ⟨entry, between, htarget, h⟩ := exec_bind_eq_ok h
    obtain ⟨others, last, htargets, h⟩ := exec_bind_eq_ok h
    obtain ⟨rfl, rfl⟩ : entry :: others = entries ∧ last = after := by simpa using h
    -- the first step has printed or failed, and the others start from what it leaves
    rcases prints_or_unprinted root config request now target targets session.files with
      ⟨printout, files, rfl, hprints⟩ | hunprinted
    · obtain ⟨next, hexec, rfl, houtput⟩ := exec_of_prints hprints
      obtain ⟨hresult, rfl⟩ := Prod.mk.inj (htarget.symm.trans hexec)
      -- the step has succeeded, so its line was taken
      by_cases hline : session.output.HasRoom (lineBytes printout.text)
      · rw [if_pos (Output.takesLine_iff_hasRoom.mpr hline)] at hresult
        rw [Output.writeLine_of_hasRoom hline] at houtput
        obtain ⟨printouts, rfl, rfl, hsteps, hheld⟩ := ih htargets
        refine ⟨printout :: printouts, rfl, ?_, .cons hprints hsteps, ?_⟩
        · rw [Except.ok.inj hresult, List.map_cons]
        · rw [hheld, houtput, Output.holding_holding, printed_cons]
      · rw [if_neg (mt Output.takesLine_iff_hasRoom.mp hline)] at hresult
        cases hresult
    · -- a target that does not print has not succeeded
      cases hunprinted with
      | failing cause failed =>
        obtain ⟨hresult, -, -⟩ := exec_announceTarget_eq root config request now target session
        rw [htarget, failed] at hresult
        cases hresult

/-- The version files that a request is for. -/
def revisedPlaces (config : Config) (request : Request) : List (String × List String) :=
  if request.version?.isSome then config.versionFiles.places else []

/-- Version files that are written are revised one after the other. -/
theorem exists_revisions_of_exec {session after : Session} {paths : List String}
    (h : exec (announceVersion root config request) session = (.ok paths, after)) :
    ∃ revisions : List Revision, revisions.map (·.place) = revisedPlaces config request
      ∧ Steps (Revises root request) revisions session.files after.files := by
  unfold announceVersion at h
  unfold revisedPlaces
  cases hversion : request.version? with
  | none =>
    rw [hversion] at h
    obtain ⟨-, rfl⟩ : [] = paths ∧ session = after := by simpa using h
    exact ⟨[], rfl, .nil _⟩
  | some version =>
    rw [hversion] at h
    dsimp only [VersionFiles.writeVersion] at h
    rw [exec_mapError] at h
    obtain ⟨hresult, rfl⟩ := Prod.mk.inj h
    have hsteps := steps_of_exec_mapM (Prod.ext (mapError_eq_ok.mp hresult) rfl)
    rw [Option.isSome_some, if_pos rfl]
    -- each step is that of some revision, and these are gathered along the steps
    refine (hsteps.map Session.files fun place before after hplace => ?_).exists_choices
    obtain ⟨path, hplace⟩ := hplace
    obtain ⟨events, heffect⟩ := exec_writeInto root version request.dryRun place before
    rw [hplace] at heffect
    split at heffect
    · cases heffect
    · rename_i files hfiles
      obtain ⟨-, rfl⟩ := Prod.mk.inj heffect
      exact (versionEffect_eq_ok_iff hversion).mp hfiles

/-- Files are written one after the other when they can be revised. -/
theorem exec_places_of_revisions {version : String} (hversion : request.version? = some version)
    {revisions : List Revision} {session : Session} {files after : FileSystem}
    (h : Steps (Revises root request) revisions files after) (hfiles : session.files = files) :
    ∃ last, exec ((revisions.map (·.place)).mapM
        (VersionFiles.writeInto root version request.dryRun)) session =
          (.ok (revisions.map (·.place.1)), last)
      ∧ last.files = after ∧ last.output = session.output := by
  induction h generalizing session with
  | nil state => exact ⟨session, rfl, hfiles, rfl⟩
  | @cons revision revisions first second third hrevision _ ih =>
    subst hfiles
    -- the first file is revised, and the others start from what it leaves
    obtain ⟨events, heffect⟩ :=
      exec_writeInto root version request.dryRun revision.place session
    rw [(versionEffect_eq_ok_iff hversion).mpr ⟨revision, rfl, hrevision⟩] at heffect
    obtain ⟨last, hrest, hlast, houtput⟩ :=
      ih (show ({ session with files := second }.reporting events).files = second from rfl)
    refine ⟨last, ?_, hlast, houtput⟩
    rw [List.map_cons, exec_mapM_cons, heffect]
    dsimp only
    rw [hrest]
    rfl

/-- The version is written when its files can be revised. -/
theorem exec_of_revisions {revisions : List Revision} {session : Session} {after : FileSystem}
    (hplaces : revisions.map (·.place) = revisedPlaces config request)
    (h : Steps (Revises root request) revisions session.files after) :
    ∃ last, exec (announceVersion root config request) session =
        (.ok (revisions.map (·.place.1)), last)
      ∧ last.files = after ∧ last.output = session.output := by
  unfold announceVersion
  unfold revisedPlaces at hplaces
  -- without a version no file is revised
  cases hversion : request.version? with
  | none =>
    rw [hversion, Option.isSome_none, if_neg Bool.false_ne_true, List.map_eq_nil_iff] at hplaces
    subst hplaces
    cases h
    exact ⟨session, rfl, rfl, rfl⟩
  | some version =>
    rw [hversion, Option.isSome_some, if_pos rfl] at hplaces
    obtain ⟨last, hlast, hkept⟩ := exec_places_of_revisions hversion h rfl
    dsimp only [VersionFiles.writeVersion]
    rw [exec_mapError, ← hplaces, hlast]
    exact ⟨last, rfl, hkept⟩

/-! ## §5 Plans -/

/-- What an announcement is to do: what each target prints, and what each version file becomes. -/
structure Plan where
  printouts : List Printout
  revisions : List Revision

namespace Plan

/-- A plan that is what an announcement from some files does. -/
structure Fits (root : String) (config : Config) (request : Request) (now : Instant)
    (files : FileSystem) (plan : Plan) : Prop where
  targets : plan.printouts.map (·.target) = request.selector.targets
  prepared : ∀ printout ∈ plan.printouts, printout.Prepared root config request now files
  places : plan.revisions.map (·.place) = revisedPlaces config request
  revised : ∀ revision ∈ plan.revisions, revision.Prepared root request files

/-- The report of an announcement that goes as planned. -/
def report (config : Config) (plan : Plan) : Report :=
  ⟨plan.printouts.map (·.entry config), plan.revisions.map (·.place.1)⟩

/-- What is written where, in order. -/
def rewritings (root : String) (config : Config) (plan : Plan) : List Rewriting :=
  plan.printouts.map (·.rewriting root config) ++ plan.revisions.map (·.rewriting root)

/-- The replacements of a plan. -/
def replacements (root : String) (config : Config) (dryRun : Bool) (files : FileSystem)
    (plan : Plan) : List Replacement :=
  (plan.rewritings root config).flatMap (·.replacements dryRun files)

theorem replacements_overwritten (dryRun : Bool) (files : FileSystem) (plan : Plan)
    (made : List Replacement) :
    plan.replacements root config dryRun (files.overwritten made) =
      plan.replacements root config dryRun files := by
  unfold replacements
  simp only [Rewriting.replacements_overwritten]

end Plan

/-- The signatures of an announcement are found among the same paths whatever is written. -/
theorem takesForSignature_overwritten {files : FileSystem} (made : List Replacement) :
    TakesForSignature root config request (files.overwritten made) =
      TakesForSignature root config request files := by
  funext path
  unfold TakesForSignature Signature.Lists
  simp only [← Signature.matchingPaths_outlined (files.overwritten made),
    FileSystem.outlined_overwritten, Signature.matchingPaths_outlined]

/-- What a prepared printout reads is its manifest and the signatures of its target. -/
theorem prepared_of_agree {printout : Printout} {files second : FileSystem}
    {signature : String → Prop}
    (hsignature : ∀ path, Signature.Lists files root
      (config.settings printout.target).signaturePattern path → signature path)
    (h : files.Agree (Reads signature [manifestPath root config printout.target]) second) :
    printout.Prepared root config request now second ↔
      printout.Prepared root config request now files := by
  -- the manifest and the signatures are all that preparing reads
  have hsame : prepare root config request now printout.target second =
      prepare root config request now printout.target files :=
    prepare_of_agree root config request now h (.inl List.mem_cons_self)
      fun path hpath => .inr (hsignature path hpath)
  rw [Printout.Prepared, Printout.Prepared, hsame]

/-- What a prepared revision reads is its version file. -/
theorem revised_of_agree {revision : Revision} {files second : FileSystem}
    {signature : String → Prop}
    (h : files.Agree (Reads signature [versionPath root revision.place]) second) :
    revision.Prepared root request second ↔ revision.Prepared root request files := by
  rw [Revision.Prepared, Revision.Prepared, Document.ofFile_of_agree h (.inl List.mem_cons_self)]

/-- A plan for the targets and the version files of a request writes to the paths of the request, to
each of them at most once. -/
theorem Plan.sublist_writtenPaths {plan : Plan}
    (htargets : plan.printouts.map (·.target) = request.selector.targets)
    (hplaces : plan.revisions.map (·.place) = revisedPlaces config request) :
    ((plan.rewritings root config).map (·.path)).Sublist (writtenPaths root config request) := by
  -- without a version there are no version files
  have hfewer : (revisedPlaces config request).Sublist config.versionFiles.places := by
    unfold revisedPlaces
    split
    · exact List.Sublist.refl _
    · exact List.nil_sublist _
  have hpaths := hfewer.map (versionPath root)
  unfold Plan.rewritings writtenPaths
  rw [← hplaces, List.map_map] at hpaths
  rw [← htargets, List.map_append, List.map_map, List.map_map, List.map_map]
  exact (List.Sublist.refl _).append hpaths

/-- The targets of a plan, as steps. -/
theorem steps_prints_iff (between : FileSystem) {printouts : List Printout} {files : FileSystem}
    (hapart : Apart files (TakesForSignature root config request files)
      ((printouts.map (·.rewriting root config)).map (·.path)))
    (htargets : printouts.map (·.target) = request.selector.targets) :
    Steps (Prints root config request now) printouts files between ↔
      (∀ printout ∈ printouts, printout.Prepared root config request now files)
        ∧ between = files.overwritten ((printouts.map (·.rewriting root config)).flatMap
          (·.replacements request.dryRun files)) := by
  rw [prints_eq]
  refine steps_rewrites_iff [] between hapart (fun printout hprintout second h => ?_)
    fun _ _ _ _ _ hnone => by cases hnone
  exact prepared_of_agree
    (fun path hpath => ⟨printout.target, htargets ▸ List.mem_map_of_mem hprintout, hpath⟩) h

/-- The version files of a plan, as steps behind the targets. -/
theorem steps_revises_iff (after : FileSystem) {rewritings : List Rewriting}
    {revisions : List Revision} {files : FileSystem} {signature : String → Prop}
    (hapart : Apart files signature
      ((rewritings ++ revisions.map (·.rewriting root)).map (·.path))) :
    Steps (Revises root request) revisions
        (files.overwritten (rewritings.flatMap (·.replacements request.dryRun files))) after ↔
      (∀ revision ∈ revisions, revision.Prepared root request files)
        ∧ after = files.overwritten ((rewritings ++ revisions.map (·.rewriting root)).flatMap
          (·.replacements request.dryRun files)) := by
  rw [List.flatMap_append]
  rw [List.map_append] at hapart
  refine steps_rewrites_iff _ after (hapart.sublist (List.sublist_append_right _ _))
    (fun revision _ second h => revised_of_agree h) fun revision hrevision path hpath replacement
      hmem => ?_
  -- what the targets have written is clear of the version files
  obtain ⟨rewriting, hrewriting, hmem⟩ := List.mem_flatMap.mp hmem
  exact hapart.clear (List.mem_append_left _ (List.mem_map_of_mem hrewriting))
    ((List.pairwise_append.mp hapart.distinct).2.2 _ (List.mem_map_of_mem hrewriting) _
      (List.mem_map_of_mem (List.mem_map_of_mem hrevision))) path hpath replacement hmem

/-- A plan as steps: the targets print, and then the version files are revised. -/
theorem steps_iff_of_apart {plan : Plan} {files after : FileSystem}
    (hapart : Apart files (TakesForSignature root config request files)
      (writtenPaths root config request))
    (htargets : plan.printouts.map (·.target) = request.selector.targets)
    (hplaces : plan.revisions.map (·.place) = revisedPlaces config request) :
    (∃ between, Steps (Prints root config request now) plan.printouts files between
      ∧ Steps (Revises root request) plan.revisions between after) ↔
        plan.Fits root config request now files
          ∧ after = files.overwritten (plan.replacements root config request.dryRun files) := by
  -- the paths that are written are some of those that are files of their own
  have hown := hapart.sublist (Plan.sublist_writtenPaths htargets hplaces)
  have hmanifests : Apart files (TakesForSignature root config request files)
      ((plan.printouts.map (·.rewriting root config)).map (·.path)) := by
    refine hown.sublist ?_
    rw [Plan.rewritings, List.map_append]
    exact List.sublist_append_left _ _
  constructor
  · -- the version files start from what the targets have replaced
    rintro ⟨between, hprints, hrevises⟩
    obtain ⟨hprepared, rfl⟩ := (steps_prints_iff between hmanifests htargets).mp hprints
    obtain ⟨hready, hafter⟩ := (steps_revises_iff after hown).mp hrevises
    exact ⟨⟨htargets, hprepared, hplaces, hready⟩, hafter⟩
  · rintro ⟨hfits, hafter⟩
    exact ⟨_, (steps_prints_iff _ hmanifests htargets).mpr ⟨hfits.prepared, rfl⟩,
      (steps_revises_iff after hown).mpr ⟨hfits.revised, hafter⟩⟩

/-- A plan that fits writes to the paths of its announcement. -/
theorem Plan.Fits.sublist {plan : Plan} {files : FileSystem}
    (h : plan.Fits root config request now files) :
    ((plan.rewritings root config).map (·.path)).Sublist (writtenPaths root config request) :=
  Plan.sublist_writtenPaths h.targets h.places

/-! ## §6 Announcements -/

/-- An announcement that has a plan goes as planned, to an output with room for its lines. -/
theorem announce_of_fits {plan : Plan} {session : Session}
    (hapart : Apart session.files (TakesForSignature root config request session.files)
      (writtenPaths root config request))
    (h : plan.Fits root config request now session.files)
    (hroom : session.output.HasRoom (printed plan.printouts)) :
    ∃ last, exec (announce root config request now) session = (.ok (plan.report config), last)
      ∧ last.files =
        session.files.overwritten (plan.replacements root config request.dryRun session.files)
      ∧ last.output = session.output.holding (printed plan.printouts) := by
  -- a plan that fits can be taken as steps, and these are what the run does
  obtain ⟨updated, hprints, hrevises⟩ :=
    (steps_iff_of_apart hapart h.targets h.places).mpr ⟨h, rfl⟩
  obtain ⟨between, htargets, rfl, hheld⟩ := exec_targets_of_prints hprints rfl hroom
  obtain ⟨last, hversion, hfiles, houtput⟩ := exec_of_revisions h.places hrevises
  refine ⟨last, ?_, hfiles, houtput.trans hheld⟩
  rw [exec_announce, ← h.targets, htargets]
  dsimp only
  rw [hversion]
  rfl

/-- An announcement that succeeds has gone by a plan. -/
theorem exists_plan {session after : Session} {report : Report}
    (hapart : Apart session.files (TakesForSignature root config request session.files)
      (writtenPaths root config request))
    (h : exec (announce root config request now) session = (.ok report, after)) :
    ∃ plan : Plan, plan.Fits root config request now session.files
      ∧ report = plan.report config
      ∧ after.files =
        session.files.overwritten (plan.replacements root config request.dryRun session.files)
      ∧ after.output = session.output.holding (printed plan.printouts) := by
  obtain ⟨entries, between, hannounced, h⟩ := exec_bind_eq_ok h
  obtain ⟨paths, last, hversion, h⟩ := exec_bind_eq_ok h
  obtain ⟨rfl, rfl⟩ : Report.mk entries paths = report ∧ last = after := by simpa using h
  -- what the targets print and what the version files become are read off the run
  obtain ⟨printouts, htargets, rfl, hprints, hheld⟩ := exists_printouts_of_exec hannounced
  obtain ⟨revisions, hplaces, hrevises⟩ := exists_revisions_of_exec hversion
  let plan : Plan := ⟨printouts, revisions⟩
  obtain ⟨hfits, hafter⟩ : plan.Fits root config request now session.files ∧ _ :=
    (steps_iff_of_apart hapart htargets hplaces).mp ⟨between.files, hprints, hrevises⟩
  -- the run of the plan ends in the session that the announcement ended in
  obtain ⟨last', hversion', -, houtput⟩ := exec_of_revisions hplaces hrevises
  obtain ⟨hresult, rfl⟩ := Prod.mk.inj (hversion.symm.trans hversion')
  obtain rfl := Except.ok.inj hresult
  exact ⟨⟨printouts, revisions⟩, hfits, rfl, hafter, houtput.trans hheld⟩

end

end Announcement

end UpdateFeed
