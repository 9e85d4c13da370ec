import UpdateFeed.Proofs.Announcement.Strictness
import UpdateFeed.Proofs.FileTree.Agreement

/-!
# Dry runs

A dry run changes no file.  It foretells the real run as long as the files that the real run writes
are files of their own: each of them regular and none of them a link, no two of them the same, and
none of them taken for a signature.  Then what the real run reads after a write is what the dry run
reads, since nothing of it was written, and writes do not change what searches list.

- `Apart`: files of their own.
- `targetEffect_asDryRun`: the step of a target in a dry run and in a real one.
- `announce_asDryRun`: a dry run changes no file, and gives what the real run gives.
-/

namespace UpdateFeed

/-! ## §1 Searches and documents -/

namespace Signature

/-- A search lists the same paths whatever the files hold. -/
theorem matchingPaths_outlined (files : FileSystem) (root pattern : String) :
    matchingPaths files.outlined root pattern = matchingPaths files root pattern := by
  -- a listing tells files from directories, and reads none of them
  have hmatching : ∀ start absolute depth? tokens,
      matching files.outlined root start absolute depth? tokens =
        matching files root start absolute depth? tokens := by
    intro start absolute depth? tokens
    unfold matching
    rw [FileSystem.node?_outlined]
    cases files.node? start with
    | error fault => rfl
    | ok node =>
      dsimp only [Except.map]
      rw [Node.filesBelow_outline]
  unfold matchingPaths
  simp only [FileSystem.isDirectory_outlined, hmatching]

/-- Whether a search for a pattern lists a path. -/
def Lists (files : FileSystem) (root pattern path : String) : Prop :=
  ∃ events paths, matchingPaths files root pattern = .ok (events, paths) ∧ path ∈ paths

/-- A search finds the same where the listed files hold the same. -/
theorem search_of_agree {reads : String → Prop} {first second : FileSystem}
    (h : FileSystem.Agree reads first second) {root pattern : String}
    (hreads : ∀ path, Lists first root pattern path → reads path) :
    search second root pattern = search first root pattern := by
  -- the same paths are listed, since the files have the same outline
  have hpaths : matchingPaths second root pattern = matchingPaths first root pattern := by
    rw [← matchingPaths_outlined, h.outline, matchingPaths_outlined]
  unfold search
  rw [hpaths]
  cases hfound : matchingPaths first root pattern with
  | error fault => rfl
  | ok listed =>
    obtain ⟨events, paths⟩ := listed
    match paths with
    | [] => rfl
    | [path] =>
      -- the text of a single file is read
      dsimp only
      rw [h.readText (hreads path ⟨events, [path], hfound, by simp⟩)]
    | _ :: _ :: _ => rfl

end Signature

/-- A document is the same where its file holds the same. -/
theorem Document.ofFile_of_agree {reads : String → Prop} {first second : FileSystem}
    (h : FileSystem.Agree reads first second) {path : String} (hpath : reads path) :
    Document.ofFile second path = Document.ofFile first path := by
  unfold Document.ofFile
  rw [h.readText hpath]

namespace Announcement

open Run

/-! ## §2 Dry and real requests -/

namespace Request

/-- The request as a dry run. -/
def asDryRun (request : Request) : Request := { request with dryRun := true }

/-- The request as a run that writes files. -/
def asRealRun (request : Request) : Request := { request with dryRun := false }

end Request

section

variable {root : String} {config : Config} {request : Request} {now : Instant}

/-- The step of a target in a dry run leaves the files alone. -/
theorem files_announceTarget_asDryRun (target : Target) (session : Session) :
    (exec (announceTarget root config request.asDryRun now target) session).2.files =
      session.files := by
  obtain ⟨-, hfiles, -⟩ := exec_announceTarget_eq root config request.asDryRun now target session
  rw [hfiles]
  unfold targetEffect
  split
  · rfl
  · -- a dry run saves nothing, and printing is no matter of files
    have hsaved : ∀ manifest, saved request.asDryRun manifest session.files = .ok session.files :=
      fun _ => rfl
    rw [hsaved]

/-- The step of a version file in a dry run leaves the files alone. -/
theorem files_writeInto_dryRun (version : String) (place : String × List String)
    (session : Session) :
    (exec (VersionFiles.writeInto root version true place) session).2.files = session.files := by
  obtain ⟨events, heffect⟩ := exec_writeInto root version true place session
  rw [heffect]
  split
  · rfl
  · rename_i files hfiles
    obtain ⟨_, _, hfiles⟩ := exists_of_bind_eq_ok hfiles
    obtain ⟨_, _, hfiles⟩ := exists_of_bind_eq_ok hfiles
    exact (Except.ok.inj hfiles).symm

/-- A dry run changes no file, whatever its outcome. -/
theorem files_announce_asDryRun (session : Session) :
    (exec (announce root config request.asDryRun now) session).2.files = session.files := by
  -- each step leaves the files alone, so a run over targets or version files does
  have htargets : ∀ targets : List Target, (exec (targets.mapM
      (announceTarget root config request.asDryRun now)) session).2.files = session.files :=
    fun targets => exec_mapM_invariant (fun target before h =>
      (files_announceTarget_asDryRun target before).trans h) rfl
  have hversion : ∀ between : Session, between.files = session.files →
      (exec (announceVersion root config request.asDryRun) between).2.files = session.files := by
    intro between h
    unfold announceVersion
    cases request.asDryRun.version? with
    | none => exact h
    | some version =>
      dsimp only [VersionFiles.writeVersion]
      rw [exec_mapError]
      exact exec_mapM_invariant (fun place before h =>
        (files_writeInto_dryRun version place before).trans h) h
  rw [exec_announce]
  have hdone := htargets request.asDryRun.selector.targets
  revert hdone
  rcases exec (request.asDryRun.selector.targets.mapM
    (announceTarget root config request.asDryRun now)) session with ⟨result, between⟩
  intro hdone
  cases result with
  | error fault => exact hdone
  | ok entries => exact hversion between hdone

/-! ## §3 Files of their own -/

/-- The path of the manifest of a target. -/
def manifestPath (root : String) (config : Config) (target : Target) : String :=
  Path.join root (config.settings target).manifest

/-- The path of a version file. -/
def versionPath (root : String) (place : String × List String) : String :=
  Path.join root place.1

/-- The manifests of the selected targets and the version files. -/
def writtenPaths (root : String) (config : Config) (request : Request) : List String :=
  request.selector.targets.map (manifestPath root config)
    ++ config.versionFiles.places.map (versionPath root)

/-- Whether the signature pattern of a selected target matches the file at a path. -/
def TakesForSignature (root : String) (config : Config) (request : Request)
    (files : FileSystem) (path : String) : Prop :=
  ∃ target ∈ request.selector.targets,
    Signature.Lists files root (config.settings target).signaturePattern path

/-- Paths to files of their own: regular files that are no links, all different, and none of them
the file at a path that is taken for a signature. -/
structure Apart (files : FileSystem) (signature : String → Prop) (paths : List String) :
    Prop where
  regular : ∀ path ∈ paths, ∃ place content, files.locate path = .ok place
    ∧ files.destination path = .ok place ∧ files.node? path = .ok (.file content)
  distinct : paths.Pairwise fun path other => files.locate path ≠ files.locate other
  unsigned : ∀ path ∈ paths, ∀ found, signature found → files.locate found ≠ files.locate path

theorem Apart.tail {files : FileSystem} {signature : String → Prop} {path : String}
    {paths : List String} (h : Apart files signature (path :: paths)) :
    Apart files signature paths where
  regular other hother := h.regular other (List.mem_cons_of_mem path hother)
  distinct := (List.pairwise_cons.mp h.distinct).2
  unsigned other hother := h.unsigned other (List.mem_cons_of_mem path hother)

/-- What is still to be read by an announcement: some of the written paths, and the signatures. -/
def Reads (signature : String → Prop) (paths : List String) (path : String) : Prop :=
  path ∈ paths ∨ signature path

/-- Writing the first of some files of their own leaves the agreement on the others. -/
theorem agree_of_apart {files second : FileSystem} {signature : String → Prop} {path : String}
    {paths : List String} (hapart : Apart files signature (path :: paths))
    (h : files.Agree (Reads signature (path :: paths)) second) (text : String) :
    ∃ after, second.replaceText path text = .ok after
      ∧ files.Agree (Reads signature paths) after := by
  obtain ⟨place, content, hlocate, hplace, hfile⟩ := hapart.regular path List.mem_cons_self
  obtain ⟨after, hafter, hagree⟩ := h.replaceText hfile hlocate hplace text
  refine ⟨after, hafter, hagree.mono fun other hother => ?_⟩
  -- another written path leads to another place, and so does a signature
  rcases hother with hother | hother
  · refine ⟨.inl (List.mem_cons_of_mem path hother), fun hsame => ?_⟩
    exact (List.pairwise_cons.mp hapart.distinct).1 other hother (hlocate.trans hsame.symm)
  · exact ⟨.inr hother, fun hsame =>
      hapart.unsigned path List.mem_cons_self other hother (hsame.trans hlocate.symm)⟩

/-- A document that was loaded from the first of some files of their own can be saved there. -/
theorem exists_save_of_apart {files second : FileSystem} {signature : String → Prop}
    {paths : List String} (document : Document)
    (hapart : Apart files signature (document.path :: paths))
    (h : files.Agree (Reads signature (document.path :: paths)) second) :
    ∃ after, document.save second = .ok after ∧ files.Agree (Reads signature paths) after := by
  obtain ⟨after, hafter, hagree⟩ := agree_of_apart hapart h document.render
  refine ⟨after, ?_, hagree⟩
  unfold Document.save
  rw [hafter]

/-! ## §4 Steps side by side -/

/-- A dry session and a real one with some files still to be written: the dry one has the files of
the start, and what the real one will read is the same there. -/
structure InStep (files : FileSystem) (signature : String → Prop) (paths : List String)
    (dry real : Session) : Prop where
  files_eq : dry.files = files
  output_eq : dry.output = real.output
  apart : Apart files signature paths
  agree : files.Agree (Reads signature paths) real.files

/-- Preparing a manifest is the same in a dry run and in a real one. -/
theorem prepare_of_agree (root : String) (config : Config) (request : Request) (now : Instant)
    {target : Target} {files second : FileSystem} {reads : String → Prop}
    (h : files.Agree reads second) (hmanifest : reads (manifestPath root config target))
    (hsignature : ∀ path,
      Signature.Lists files root (config.settings target).signaturePattern path → reads path) :
    prepare root config request.asRealRun now target second =
      prepare root config request.asDryRun now target files := by
  have hload : Document.ofFile second (Path.join root (config.settings target).manifest) =
      Document.ofFile files (Path.join root (config.settings target).manifest) :=
    Document.ofFile_of_agree h hmanifest
  unfold prepare Manifest.ofFile
  dsimp only
  rw [hload, Signature.search_of_agree h hsignature]
  rfl

/-- The step of a target in a dry run and in a real one: the same result and output, and one path
less to be written. -/
theorem targetEffect_asDryRun (root : String) (config : Config) (request : Request)
    (now : Instant) {target : Target} {files second : FileSystem} {signature : String → Prop}
    {paths : List String} (output : Output)
    (hapart : Apart files signature (manifestPath root config target :: paths))
    (h : files.Agree (Reads signature (manifestPath root config target :: paths)) second)
    (hsignature : ∀ path,
      Signature.Lists files root (config.settings target).signaturePattern path →
        signature path) :
    (targetEffect root config request.asDryRun now target files output).1 =
        (targetEffect root config request.asRealRun now target second output).1
      ∧ (targetEffect root config request.asDryRun now target files output).2.2 =
        (targetEffect root config request.asRealRun now target second output).2.2
      ∧ files.Agree (Reads signature paths)
        (targetEffect root config request.asRealRun now target second output).2.1 := by
  -- what is still to be read does not include the manifest that is written now
  have hfewer : ∀ path, Reads signature paths path →
      Reads signature (manifestPath root config target :: paths) path := fun path hpath =>
    hpath.imp (List.mem_cons_of_mem (manifestPath root config target)) id
  have hprepare := prepare_of_agree root config request now h (.inl List.mem_cons_self)
    fun path hpath => .inr (hsignature path hpath)
  unfold targetEffect
  rw [hprepare]
  cases hprepared : prepare root config request.asDryRun now target files with
  -- a fault comes before anything is written
  | error fault => exact ⟨rfl, rfl, h.mono hfewer⟩
  | ok prepared =>
    obtain ⟨manifest, signature?⟩ := prepared
    -- the manifest belongs to the path it was loaded from, so it can be saved
    obtain ⟨document, _, edited, hloaded, _, _, rfl, _⟩ := exists_of_prepare hprepared
    have hpath : document.path = manifestPath root config target :=
      Document.path_of_ofFile hloaded
    rw [← hpath] at hapart h
    obtain ⟨after, hafter, hagree⟩ :=
      exists_save_of_apart { document with root := edited } hapart h
    have hreal : saved request.asRealRun ⟨{ document with root := edited }⟩ second = .ok after := by
      show (Except.mapError ManifestFault.document
        (Document.save { document with root := edited } second)).mapError Fault.manifest = .ok after
      rw [hafter]
      rfl
    have hdry : saved request.asDryRun ⟨{ document with root := edited }⟩ files = .ok files := rfl
    dsimp only
    rw [hreal, hdry]
    exact ⟨rfl, rfl, hagree⟩

/-- The same for the step of a version file. -/
theorem versionEffect_asDryRun {files second : FileSystem} {signature : String → Prop}
    {version : String} {place : String × List String} {paths : List String}
    (hapart : Apart files signature (versionPath root place :: paths))
    (h : files.Agree (Reads signature (versionPath root place :: paths)) second) :
    (∃ fault, versionEffect root version true place files = .error fault
        ∧ versionEffect root version false place second = .error fault)
      ∨ ∃ after, versionEffect root version true place files = .ok files
        ∧ versionEffect root version false place second = .ok after
        ∧ files.Agree (Reads signature paths) after := by
  have hload : Document.ofFile second (Path.join root place.1) =
      Document.ofFile files (Path.join root place.1) :=
    Document.ofFile_of_agree h (.inl List.mem_cons_self)
  unfold versionEffect
  rw [hload]
  cases hloaded : Document.ofFile files (Path.join root place.1) with
  | error fault => exact .inl ⟨fault, rfl, rfl⟩
  | ok document =>
    rw [ok_bind, ok_bind]
    cases hedited : document.putString place.2 "version" version with
    | error fault => exact .inl ⟨fault, rfl, rfl⟩
    | ok edited =>
      right
      obtain ⟨changed, _, rfl⟩ := Document.putString_eq_ok_iff.mp hedited
      -- the document is saved at the path it was loaded from
      have hpath : document.path = versionPath root place := Document.path_of_ofFile hloaded
      rw [← hpath] at hapart h
      obtain ⟨after, hafter, hagree⟩ :=
        exists_save_of_apart { document with root := changed } hapart h
      exact ⟨after, rfl, hafter, hagree⟩

/-- The step of a target keeps a dry session and a real one in step. -/
theorem exec_announceTarget_inStep (root : String) (config : Config) (request : Request)
    (now : Instant) {files : FileSystem} {signature : String → Prop} {target : Target}
    {paths : List String} {dry real : Session}
    (h : InStep files signature (manifestPath root config target :: paths) dry real)
    (hsignature : ∀ path,
      Signature.Lists files root (config.settings target).signaturePattern path →
        signature path) :
    Alongside (InStep files signature paths)
      (exec (announceTarget root config request.asDryRun now target) dry)
      (exec (announceTarget root config request.asRealRun now target) real) := by
  -- in step are the files before the run, the output, and what is still to be read
  obtain ⟨rfl, houtput, hapart, hagree⟩ := h
  obtain ⟨hresult, -, hwritten⟩ :=
    exec_announceTarget_eq root config request.asDryRun now target dry
  obtain ⟨hresult', hfiles', hwritten'⟩ :=
    exec_announceTarget_eq root config request.asRealRun now target real
  obtain ⟨hsame, hprinted, hafter⟩ :=
    targetEffect_asDryRun root config request now dry.output hapart hagree hsignature
  rw [← houtput] at hresult' hfiles' hwritten'
  refine ⟨?_, files_announceTarget_asDryRun target dry, ?_, hapart.tail, ?_⟩
  · rw [hresult, hresult', hsame]
  · rw [hwritten, hwritten', hprinted]
  · rw [hfiles']
    exact hafter

/-- The step of a version file keeps a dry session and a real one in step. -/
theorem exec_writeInto_inStep (root : String) {files : FileSystem} {signature : String → Prop}
    {version : String} {place : String × List String} {paths : List String} {dry real : Session}
    (h : InStep files signature (versionPath root place :: paths) dry real) :
    Alongside (InStep files signature paths)
      (exec (VersionFiles.writeInto root version true place) dry)
      (exec (VersionFiles.writeInto root version false place) real) := by
  obtain ⟨rfl, houtput, hapart, hagree⟩ := h
  obtain ⟨events, heffect⟩ := exec_writeInto root version true place dry
  obtain ⟨events', heffect'⟩ := exec_writeInto root version false place real
  rw [heffect, heffect']
  rcases versionEffect_asDryRun hapart hagree with
    ⟨fault, hdry, hreal⟩ | ⟨after, hdry, hreal, hafter⟩
  · -- nothing is written, and fewer paths are left to agree on
    rw [hdry, hreal]
    exact ⟨rfl, rfl, houtput, hapart.tail, hagree.mono fun path hpath =>
      hpath.imp (List.mem_cons_of_mem (versionPath root place)) id⟩
  · rw [hdry, hreal]
    exact ⟨rfl, rfl, houtput, hapart.tail, hafter⟩

/-! ## §5 Runs side by side -/

/-- The targets of a dry announcement and of a real one, each with its pattern among those whose
matches are taken for signatures. -/
theorem exec_announceTargets_inStep (root : String) (config : Config) (request : Request)
    (now : Instant) {files : FileSystem} {signature : String → Prop}
    {targets : List Target} {others : List String} {dry real : Session}
    (h : InStep files signature (targets.map (manifestPath root config) ++ others) dry real)
    (hsignature : ∀ target ∈ targets, ∀ path,
      Signature.Lists files root (config.settings target).signaturePattern path →
        signature path) :
    ∃ later : List Target,
      Alongside (InStep files signature (later.map (manifestPath root config) ++ others))
        (exec (targets.mapM (announceTarget root config request.asDryRun now)) dry)
        (exec (targets.mapM (announceTarget root config request.asRealRun now)) real)
      ∧ ∀ entries,
        (exec (targets.mapM (announceTarget root config request.asDryRun now)) dry).1 =
          .ok entries → later = [] := by
  -- the targets that are left are among the selected ones, so their patterns are
  obtain ⟨later, ⟨hresult, -, hkept⟩, hdone⟩ := alongside_mapM
    (fun later dry real => later ⊆ targets
      ∧ InStep files signature (later.map (manifestPath root config) ++ others) dry real)
    (fun target later _ _ ⟨hselected, hstep⟩ => by
      obtain ⟨hsame, hkept⟩ := exec_announceTarget_inStep root config request now hstep
        fun path hpath => hsignature target (hselected List.mem_cons_self) path hpath
      exact ⟨hsame, fun other hother => hselected (List.mem_cons_of_mem target hother), hkept⟩)
    ⟨List.Subset.refl targets, h⟩
  exact ⟨later, ⟨hresult, hkept⟩, hdone⟩

/-- The end of a dry announcement and of a real one. -/
theorem exec_announceVersion_inStep (root : String) (config : Config) (request : Request)
    {files : FileSystem} {signature : String → Prop} {dry real : Session}
    (h : InStep files signature (config.versionFiles.places.map (versionPath root)) dry real) :
    ∃ paths, Alongside (InStep files signature paths)
      (exec (announceVersion root config request.asDryRun) dry)
      (exec (announceVersion root config request.asRealRun) real) := by
  unfold announceVersion
  rw [show request.asDryRun.version? = request.version? from rfl,
    show request.asRealRun.version? = request.version? from rfl]
  cases request.version? with
  -- without a version nothing is written
  | none => exact ⟨_, rfl, h⟩
  | some version =>
    dsimp only [VersionFiles.writeVersion]
    rw [exec_mapError, exec_mapError]
    obtain ⟨later, ⟨hresult, hkept⟩, -⟩ := alongside_mapM
      (fun places => InStep files signature (places.map (versionPath root)))
      (fun place later dry real h => exec_writeInto_inStep root h) h
    exact ⟨_, congrArg (Except.mapError Fault.versionFile) hresult, hkept⟩

/-- A dry run changes no file, whatever its outcome.  Where the files to be written are files of
their own, it gives the result of the real run and writes the same to the output. -/
theorem announce_asDryRun (root : String) (config : Config) (request : Request) (now : Instant)
    (session : Session) :
    (exec (announce root config request.asDryRun now) session).2.files = session.files
      ∧ (Apart session.files (TakesForSignature root config request session.files)
            (writtenPaths root config request) →
          (exec (announce root config request.asDryRun now) session).1 =
              (exec (announce root config request.asRealRun now) session).1
            ∧ (exec (announce root config request.asDryRun now) session).2.output =
              (exec (announce root config request.asRealRun now) session).2.output) := by
  refine ⟨files_announce_asDryRun session, fun hapart => ?_⟩
  -- before the first step everything is still to be written, and the files are the same
  have hstart : InStep session.files (TakesForSignature root config request session.files)
      (request.selector.targets.map (manifestPath root config)
        ++ config.versionFiles.places.map (versionPath root)) session session :=
    ⟨rfl, rfl, hapart, .refl _ session.files⟩
  have htargets := exec_announceTargets_inStep root config request now hstart
    fun target hselected path hpath => ⟨target, hselected, hpath⟩
  rw [exec_announce, exec_announce]
  rw [show request.asDryRun.selector = request.selector from rfl,
    show request.asRealRun.selector = request.selector from rfl]
  generalize exec (request.selector.targets.mapM
    (announceTarget root config request.asDryRun now)) session = dry at htargets ⊢
  generalize exec (request.selector.targets.mapM
    (announceTarget root config request.asRealRun now)) session = real at htargets ⊢
  obtain ⟨result, between⟩ := dry
  obtain ⟨result', between'⟩ := real
  obtain ⟨later, ⟨hresult, hkept⟩, hdone⟩ := htargets
  obtain rfl : result = result' := hresult
  cases result with
  -- a fault among the targets ends both runs
  | error fault => exact ⟨rfl, hkept.output_eq⟩
  | ok entries =>
    -- behind the last target only the version files are left to be written
    obtain rfl := hdone entries rfl
    obtain ⟨paths, hversion, hlast⟩ := exec_announceVersion_inStep root config request hkept
    exact ⟨congrArg (Except.map (Report.mk entries)) hversion, hlast.output_eq⟩

end

/-- The written files of the small project are files of their own. -/
theorem apart_sampleFiles :
    Apart sampleFiles (TakesForSignature "." sampleConfig sampleRequest sampleFiles)
      (writtenPaths "." sampleConfig sampleRequest) where
  regular := by
    intro path hpath
    have hpath : path = "./feed.json" ∨ path = "./package.json" ∨ path = "./conf.json" := by
      have hpaths : writtenPaths "." sampleConfig sampleRequest =
          ["./feed.json", "./package.json", "./conf.json"] := by decide +kernel
      simpa [hpaths] using hpath
    rcases hpath with rfl | rfl | rfl
    · exact ⟨["feed.json"], _, by decide +kernel, by decide +kernel, rfl⟩
    · exact ⟨["package.json"], _, by decide +kernel, by decide +kernel, rfl⟩
    · exact ⟨["conf.json"], _, by decide +kernel, by decide +kernel, rfl⟩
  distinct := by decide +kernel
  unsigned := by
    rintro path hpath found ⟨target, -, events, paths, hlisted, hfound⟩
    have hfound : found = "./app1.sig" := by
      have hpaths : (Signature.matchingPaths sampleFiles "." "app*.sig").map Prod.snd =
          .ok ["./app1.sig"] := by decide +kernel
      have hsettings : (sampleConfig.settings target).signaturePattern = "app*.sig" := by
        cases target <;> rfl
      rw [hsettings] at hlisted
      rw [hlisted] at hpaths
      obtain rfl : paths = ["./app1.sig"] := Except.ok.inj hpaths
      simpa using hfound
    subst hfound
    revert path
    decide +kernel

theorem announce_asDryRun_sample :
    Apart sampleSession.files
        (TakesForSignature "." sampleConfig sampleRequest sampleSession.files)
        (writtenPaths "." sampleConfig sampleRequest)
      ∧ (exec (announce "." sampleConfig sampleRequest.asRealRun ⟨0, 0⟩) sampleSession).1 =
        .ok ⟨[⟨.linux, "feed.json", some "./app1.sig"⟩], ["package.json", "conf.json"]⟩
      ∧ (exec (announce "." sampleConfig sampleRequest.asRealRun ⟨0, 0⟩) sampleSession).2.files ≠
        sampleSession.files
      ∧ (exec (announce "." sampleConfig sampleRequest.asDryRun ⟨0, 0⟩) sampleSession).2.files =
        sampleSession.files
      ∧ (exec (announce "." sampleConfig sampleRequest.asDryRun ⟨0, 0⟩) sampleSession).1 =
        .ok ⟨[⟨.linux, "feed.json", some "./app1.sig"⟩], ["package.json", "conf.json"]⟩ := by
  have hreal :
      (exec (announce "." sampleConfig sampleRequest.asRealRun ⟨0, 0⟩) sampleSession).1 =
        .ok ⟨[⟨.linux, "feed.json", some "./app1.sig"⟩], ["package.json", "conf.json"]⟩ := by
    decide +kernel
  have hwritten : ((exec (announce "." sampleConfig sampleRequest.asRealRun ⟨0, 0⟩)
      sampleSession).2.files.readText "package.json").toOption ≠
        (sampleSession.files.readText "package.json").toOption := by
    decide +kernel
  obtain ⟨hfiles, hsame⟩ := announce_asDryRun "." sampleConfig sampleRequest ⟨0, 0⟩ sampleSession
  exact ⟨apart_sampleFiles, hreal, fun h => hwritten (by rw [h]), hfiles,
    (hsame apart_sampleFiles).1.trans hreal⟩

end Announcement

end UpdateFeed
