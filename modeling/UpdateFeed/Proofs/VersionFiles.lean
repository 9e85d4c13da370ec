import UpdateFeed.Proofs.Announcement.Repetition
import UpdateFeed.Proofs.Document.LinkFree

/-!
# Version files, one and the same file included

The places of the version may be in one file, whether it is named twice or by two paths.  The edit
of the second place then loads what the first one has saved.  A dry run never sees that text, and
foretells the outcome all the same: what was saved is loaded as the edited document, and a string at
one place is neither on the way to another place nor above it.

- `Stage`: the files when the version was written at some places.
- `Stage.step`, `Stage.steps`: further places, in a dry run and in a real one.
- `writeVersion_foretold`: the outcome of writing the version.
-/

namespace UpdateFeed

namespace VersionFiles

open Run Announcement

/-! ## §1 Places of the version -/

/-- A place of the version: a path, and the keys of the object that holds the version. -/
abbrev Place := String × List String

/-- Whether the strings at some places are neither on the way to one of the places nor above it. -/
def Separate (places : List Place) : Prop :=
  ∀ place ∈ places, ∀ other ∈ places, ¬ place.2 ++ ["version"] <+: other.2

theorem Separate.of_subset {places fewer : List Place} (h : Separate places)
    (hfewer : fewer ⊆ places) : Separate fewer :=
  fun place hplace other hother => h place (hfewer hplace) other (hfewer hother)

/-- The strings that are written to the file at an address. -/
def textsAt (files : FileSystem) (root version : String) (places : List Place)
    (address : Address) : Json.Texts :=
  (places.filter fun place =>
    (files.locate (versionPath root place)).toOption = some address).map fun place =>
      (place.2 ++ ["version"], version)

/-- Whether the file at a path is a document with an object at some keys. -/
def HoldsObject (files : FileSystem) (path : String) (keys : List String) : Prop :=
  ∃ document members, Document.ofFile files path = .ok document
    ∧ document.root.valueAt keys = some (.object members)

/-- The files when the version was written at some places: the documents there have the version,
and nothing else was changed. -/
structure Stage (root version : String) (files : FileSystem) (done : List Place)
    (current : FileSystem) : Prop where
  outline : current.outlined = files.outlined
  /-- Each document has the strings of the places in its file, by whatever path it is loaded. -/
  document : ∀ path address document, files.locate path = .ok address →
    Document.ofFile files path = .ok document → document.IsWhole →
    ∃ written, Document.ofFile current path = .ok { document with root := written }
      ∧ Document.IsWhole { document with root := written }
      ∧ Json.Rewritten (textsAt files root version done address) document.root written
  fault : ∀ path fault, Document.ofFile files path = .error fault →
    Document.ofFile current path = .error fault
  elsewhere : ∀ address,
    (∀ place ∈ done, files.locate (versionPath root place) ≠ .ok address) →
    current.tree.holdingAt address = files.tree.holdingAt address

section

variable {root version : String} {files current : FileSystem} {place : Place}
  {done places : List Place} {address : Address}

theorem textsAt_append (files : FileSystem) (root version : String) (places others : List Place)
    (address : Address) :
    textsAt files root version (places ++ others) address =
      textsAt files root version places address ++ textsAt files root version others address := by
  simp [textsAt]

theorem textsAt_singleton (version : String)
    (h : files.locate (versionPath root place) = .ok address) :
    textsAt files root version [place] address = [(place.2 ++ ["version"], version)] := by
  simp [textsAt, h, Except.toOption]

theorem textsAt_singleton_of_ne (version : String)
    (h : files.locate (versionPath root place) ≠ .ok address) :
    textsAt files root version [place] address = [] := by
  cases hlocate : files.locate (versionPath root place) with
  | error fault => simp [textsAt, hlocate, Except.toOption]
  | ok found =>
    have hne : found ≠ address := by
      rintro rfl
      exact h hlocate
    simp [textsAt, hlocate, hne, Except.toOption]

theorem mem_textsAt {keys : List String} {text : String}
    (h : (keys, text) ∈ textsAt files root version places address) :
    ∃ place ∈ places, keys = place.2 ++ ["version"] ∧ text = version := by
  obtain ⟨place, hplace, heq⟩ := List.mem_map.mp h
  obtain ⟨rfl, rfl⟩ := Prod.mk.inj heq
  exact ⟨place, (List.mem_filter.mp hplace).1, rfl, rfl⟩

theorem mem_textsAt_of_locate (hplace : place ∈ places)
    (h : files.locate (versionPath root place) = .ok address) :
    (place.2 ++ ["version"], version) ∈ textsAt files root version places address :=
  List.mem_map.mpr ⟨place, List.mem_filter.mpr ⟨hplace, by simp [h, Except.toOption]⟩, rfl⟩

/-- The strings at separate places do not undo each other. -/
theorem Separate.agree (h : Separate (done ++ [place])) :
    Json.Agree (textsAt files root version done address) [(place.2 ++ ["version"], version)] := by
  intro keys text keys' text' hfirst hsecond hcut
  obtain ⟨other, hother, rfl, rfl⟩ := mem_textsAt hfirst
  obtain ⟨rfl, rfl⟩ := Prod.mk.inj (List.mem_singleton.mp hsecond)
  have hmem := List.mem_append_left [place] hother
  have hlast : place ∈ done ++ [place] := by simp
  refine ⟨?_, rfl⟩
  rcases hcut with hcut | hcut
  · exact (List.prefix_concat_iff.mp hcut).resolve_right (h _ hmem _ hlast)
  · exact ((List.prefix_concat_iff.mp hcut).resolve_right (h _ hlast _ hmem)).symm

/-! ## §2 One place -/

theorem Stage.start (root version : String) (files : FileSystem) :
    Stage root version files [] files where
  outline := rfl
  document _ _ document _ hload hwhole := ⟨document.root, hload, hwhole, .refl _⟩
  fault _ _ h := h
  elsewhere _ _ := rfl

theorem Stage.locate (h : Stage root version files done current) (path : String) :
    current.locate path = files.locate path := by
  rw [← FileSystem.locate_outlined, h.outline, FileSystem.locate_outlined]

/-- Paths to one file give the same documents, before and at a stage. -/
theorem Stage.eq_of_locate (h : Stage root version files done current) {path other : String}
    {document found : Document} {written former : Json}
    (hpaths : files.locate other = files.locate path)
    (hload : Document.ofFile files path = .ok document)
    (hcurrent : Document.ofFile current path = .ok { document with root := written })
    (hfound : Document.ofFile files other = .ok found)
    (hformer : Document.ofFile current other = .ok { found with root := former }) :
    found = { document with path := other } ∧ former = written := by
  constructor
  · exact Except.ok.inj (hfound.symm.trans (Document.ofFile_of_locate hpaths hload))
  · have hpaths' : current.locate other = current.locate path := by
      rw [h.locate, h.locate, hpaths]
    exact congrArg Document.root (Except.ok.inj
      (hformer.symm.trans (Document.ofFile_of_locate hpaths' hcurrent)))

/-- An edited document is saved at its place. -/
theorem Stage.save (h : Stage root version files done current) (hlinks : files.tree.IsLinkFree)
    (hseparate : Separate (done ++ [place])) {document : Document} {written changed : Json}
    (hload : Document.ofFile files (versionPath root place) = .ok document)
    (hcurrent : Document.ofFile current (versionPath root place) =
      .ok { document with root := written })
    (hwhole : Document.IsWhole { document with root := written })
    (hchanged : written.putString "version" version place.2 = .ok changed) :
    ∃ after, Document.save { document with root := changed } current = .ok after
      ∧ Stage root version files (done ++ [place]) after := by
  have hpath : document.path = versionPath root place := Document.path_of_ofFile hload
  obtain ⟨_, content, -, hfile⟩ := Document.exists_file_of_ofFile hcurrent
  have hfree : current.tree.IsLinkFree := hlinks.of_outline (congrArg FileSystem.tree h.outline)
  have hedited : Document.IsWhole { document with root := changed } :=
    Json.formed_putString hwhole hchanged
  obtain ⟨address, after, haddress, hsave, hagree, helsewhere, hloads⟩ :=
    Document.exists_save { document with root := changed } hfree (hpath ▸ hfile)
  have hplace : files.locate (versionPath root place) = .ok address := by
    rw [← h.locate, ← hpath, haddress]
  refine ⟨after, hsave, ⟨hagree.outline.trans h.outline, ?_, ?_, ?_⟩⟩
  · intro path address' found hlocate hfound hfoundWhole
    obtain ⟨former, hformer, hformerWhole, hrewritten⟩ :=
      h.document path address' found hlocate hfound hfoundWhole
    rw [textsAt_append]
    by_cases hsame : address' = address
    · -- the path leads to the file that was saved
      subst hsame
      obtain ⟨rfl, rfl⟩ := h.eq_of_locate (hlocate.trans hplace.symm) hload hcurrent hfound hformer
      refine ⟨changed, ?_, hedited, ?_⟩
      · rw [hloads path ((h.locate path).trans hlocate)]
        have hown : Document.IsWhole { document with path, root := changed } := hedited
        exact hown.ofText_render
      · rw [textsAt_singleton version hplace]
        exact hrewritten.trans (Json.rewritten_putString hchanged) hseparate.agree
    · refine ⟨former, ?_, hformerWhole, ?_⟩
      · rw [Document.ofFile_of_agree hagree, hformer]
        rw [h.locate, hlocate]
        exact fun heq => hsame (Except.ok.inj heq)
      · rw [textsAt_singleton_of_ne version, List.append_nil]
        · exact hrewritten
        · rw [hplace]
          exact fun heq => hsame (Except.ok.inj heq).symm
  · intro path fault hfault
    rw [Document.ofFile_of_agree hagree, h.fault path fault hfault]
    -- the file that was saved had a document
    intro heq
    rw [h.locate] at heq
    cases hfault.symm.trans (Document.ofFile_of_locate (heq.trans hplace.symm) hload)
  · intro other hother
    rw [helsewhere other, h.elsewhere other]
    · exact fun place hmem => hother place (List.mem_append_left _ hmem)
    · rintro rfl
      exact hother place (by simp) hplace

/-- The version at one more place, in a dry run and in a real one: both fail alike, or the dry run
changes nothing and the real one saves the version. -/
theorem Stage.step (h : Stage root version files done current) (hlinks : files.tree.IsLinkFree)
    (hseparate : Separate (done ++ [place]))
    (hwhole : HoldsWholeNumbers files (versionPath root place)) :
    (∃ fault, versionEffect root version true place files = .error fault
        ∧ versionEffect root version false place current = .error fault)
      ∨ ∃ after, versionEffect root version true place files = .ok files
        ∧ versionEffect root version false place current = .ok after
        ∧ Stage root version files (done ++ [place]) after := by
  unfold versionEffect
  rw [show Path.join root place.1 = versionPath root place from rfl]
  cases hload : Document.ofFile files (versionPath root place) with
  | error fault =>
    rw [h.fault _ _ hload]
    exact .inl ⟨fault, rfl, rfl⟩
  | ok document =>
    obtain ⟨address, _, hlocate, -⟩ := Document.exists_file_of_ofFile hload
    obtain ⟨written, hcurrent, hwritten, hrewritten⟩ :=
      h.document _ address document hlocate hload (hwhole.isWhole hload)
    rw [hcurrent, ok_bind, ok_bind]
    -- an earlier edit of the same file does not stand in the way of this one
    have hapart : ∀ keys text, (keys, text) ∈ textsAt files root version done address →
        ¬ keys <+: place.2 := by
      intro keys text hmem
      obtain ⟨other, hother, rfl, -⟩ := mem_textsAt hmem
      exact hseparate other (List.mem_append_left _ hother) place (by simp)
    rcases Document.putString_of_rewritten hrewritten hapart "version" version with
      ⟨fault, hdry, hreal⟩ | ⟨edited, changed, hdry, hreal⟩
    · left
      rw [hdry, hreal]
      exact ⟨fault, rfl, rfl⟩
    · right
      obtain ⟨after, hsave, hstage⟩ := h.save hlinks hseparate hload hcurrent hwritten hreal
      rw [Document.putString_eq_ok_iff.mpr ⟨edited, hdry, rfl⟩,
        Document.putString_eq_ok_iff.mpr ⟨changed, hreal, rfl⟩]
      exact ⟨after, rfl, hsave, hstage⟩

/-! ## §3 All places -/

/-- The version at further places, in a dry run and in a real one: the same result, and the version
at all places unless the runs fail. -/
theorem Stage.steps {dry real : Session} (h : Stage root version files done real.files)
    (hdry : dry.files = files) (hlinks : files.tree.IsLinkFree)
    (hseparate : Separate (done ++ places))
    (hwhole : ∀ place ∈ places, HoldsWholeNumbers files (versionPath root place)) :
    (exec (places.mapM (writeInto root version true)) dry).1 =
        (exec (places.mapM (writeInto root version false)) real).1
      ∧ ∀ results, (exec (places.mapM (writeInto root version false)) real).1 = .ok results →
        Stage root version files (done ++ places)
          (exec (places.mapM (writeInto root version false)) real).2.files := by
  induction places generalizing done dry real with
  | nil =>
    rw [List.mapM_nil, List.mapM_nil, exec_pure, exec_pure, List.append_nil]
    exact ⟨rfl, fun _ _ => h⟩
  | cons place places ih =>
    obtain ⟨events, hfirst⟩ := exec_writeInto root version true place dry
    obtain ⟨events', hfirst'⟩ := exec_writeInto root version false place real
    obtain ⟨hplace, hothers⟩ := List.forall_mem_cons.mp hwhole
    rw [exec_mapM_cons, exec_mapM_cons, hfirst, hfirst', hdry]
    rcases h.step hlinks (hseparate.of_subset (by simp)) hplace with
      ⟨fault, hfault, hfault'⟩ | ⟨after, hkept, hsaved, hstage⟩
    · rw [hfault, hfault']
      exact ⟨rfl, fun _ hok => by cases hok⟩
    · rw [hkept, hsaved]
      dsimp only
      rw [List.append_cons] at hseparate ⊢
      -- the other places come behind this one, which the real session has done
      obtain ⟨hresult, hall⟩ := @ih (done ++ [place]) (({ dry with files }).reporting events)
        (({ real with files := after }).reporting events') hstage rfl hseparate hothers
      refine ⟨by rw [hresult], fun results hok => ?_⟩
      obtain ⟨others, hok, -⟩ := map_eq_ok.mp hok
      exact hall others hok

/-- A dry run changes no file. -/
theorem files_dryRun (places : List Place) (session : Session) :
    (exec (places.mapM (writeInto root version true)) session).2.files = session.files :=
  exec_mapM_invariant (fun place before h => (files_writeInto_dryRun version place before).trans h)
    rfl

/-- In a dry run a place has its outcome from the files alone. -/
theorem versionEffect_dryRun_eq_ok_iff {after : FileSystem} :
    versionEffect root version true place files = .ok after ↔
      HoldsObject files (versionPath root place) place.2 ∧ files = after := by
  unfold versionEffect HoldsObject
  simp only [bind_eq_ok_iff, Document.putString_eq_ok_iff, Json.putString_eq_ok_iff]
  constructor
  · rintro ⟨document, hload, edited, ⟨root, ⟨members, hobject, -⟩, -⟩, hafter⟩
    exact ⟨⟨document, members, hload, hobject⟩, Except.ok.inj hafter⟩
  · rintro ⟨⟨document, members, hload, hobject⟩, rfl⟩
    exact ⟨document, hload, _, ⟨_, ⟨members, hobject, rfl⟩, rfl⟩, rfl⟩

/-- A dry run succeeds when there is an object at each place, and gives the paths. -/
theorem exec_dryRun_eq_ok_iff {session : Session} {paths : List String} :
    (exec (places.mapM (writeInto root version true)) session).1 = .ok paths ↔
      (∀ place ∈ places, HoldsObject session.files (versionPath root place) place.2)
        ∧ places.map Prod.fst = paths := by
  induction places generalizing session paths with
  | nil => simp
  | cons place places ih =>
    obtain ⟨events, hplace⟩ := exec_writeInto root version true place session
    rw [exec_mapM_cons, hplace, List.forall_mem_cons, List.map_cons]
    cases heffect : versionEffect root version true place session.files with
    | error fault =>
      have hnone : ¬ HoldsObject session.files (versionPath root place) place.2 := by
        intro hobject
        cases heffect.symm.trans (versionEffect_dryRun_eq_ok_iff.mpr ⟨hobject, rfl⟩)
      simp [hnone]
    | ok after =>
      -- a dry run leaves the files as they are, so the other places are asked about the same ones
      obtain ⟨hobject, rfl⟩ := versionEffect_dryRun_eq_ok_iff.mp heffect
      rw [map_eq_ok]
      simp only [ih, hobject, true_and]
      constructor
      · rintro ⟨others, ⟨hothers, rfl⟩, rfl⟩
        exact ⟨hothers, rfl⟩
      · rintro ⟨hothers, rfl⟩
        exact ⟨_, ⟨hothers, rfl⟩, rfl⟩

theorem separate_places (versionFiles : VersionFiles) : Separate versionFiles.places := by
  intro place hplace other hother
  simp only [places, List.mem_cons, List.not_mem_nil, or_false] at hplace hother
  rcases hplace with rfl | rfl <;> rcases hother with rfl | rfl <;> simp

/-- Writing the version succeeds exactly when one file holds an object and the other one an object
with an object below `package`, and gives both paths then.  Afterwards each of the files has the
version at its place, both places if they are in one and the same file, and all else is as it was.
A dry run changes nothing, and has the same outcome, the fault included. -/
theorem writeVersion_foretold {versionFiles : VersionFiles} {session : Session}
    (hlinks : session.files.tree.IsLinkFree)
    (hwhole : ∀ place ∈ versionFiles.places,
      HoldsWholeNumbers session.files (versionPath root place)) :
    let dry := exec (writeVersion versionFiles root version true) session
    let real := exec (writeVersion versionFiles root version false) session
    dry.1 = real.1 ∧ dry.2.files = session.files
      ∧ (∀ paths, real.1 = .ok paths ↔
        HoldsObject session.files (Path.join root versionFiles.packageJson) []
          ∧ HoldsObject session.files (Path.join root versionFiles.packagingConfig) ["package"]
          ∧ [versionFiles.packageJson, versionFiles.packagingConfig] = paths)
      ∧ ∀ paths, real.1 = .ok paths →
        (∀ place ∈ versionFiles.places, ∃ address document written,
          session.files.locate (versionPath root place) = .ok address
            ∧ Document.ofFile session.files (versionPath root place) = .ok document
            ∧ Document.ofFile real.2.files (versionPath root place) =
              .ok { document with root := written }
            ∧ written.valueAt (place.2 ++ ["version"]) = some (.string version)
            ∧ Json.Rewritten (textsAt session.files root version versionFiles.places address)
              document.root written)
          ∧ real.2.files.outlined = session.files.outlined
          ∧ ∀ address, (∀ place ∈ versionFiles.places,
              session.files.locate (versionPath root place) ≠ .ok address) →
            real.2.files.tree.holdingAt address = session.files.tree.holdingAt address := by
  intro dry real
  have hsteps : dry.1 = real.1 ∧ ∀ results, real.1 = .ok results →
      Stage root version session.files versionFiles.places real.2.files :=
    (Stage.start root version session.files).steps rfl hlinks (separate_places versionFiles) hwhole
  obtain ⟨hresult, hall⟩ := hsteps
  -- both runs have one result, which is read off the dry one, since it changes no file
  have houtcome : ∀ paths, real.1 = .ok paths ↔
      (∀ place ∈ versionFiles.places, HoldsObject session.files (versionPath root place) place.2)
        ∧ versionFiles.places.map Prod.fst = paths := by
    intro paths
    rw [← hresult]
    exact exec_dryRun_eq_ok_iff
  refine ⟨hresult, files_dryRun versionFiles.places session, fun paths => ?_, fun paths hok => ?_⟩
  · rw [houtcome]
    simp [places, versionPath, and_assoc]
  · obtain ⟨hobjects, -⟩ := (houtcome paths).mp hok
    have hstage := hall paths hok
    refine ⟨fun place hplace => ?_, hstage.outline, hstage.elsewhere⟩
    obtain ⟨document, -, hload, -⟩ := hobjects place hplace
    obtain ⟨address, -, hlocate, -⟩ := Document.exists_file_of_ofFile hload
    obtain ⟨written, hafter, -, hrewritten⟩ := hstage.document _ address document hlocate hload
      ((hwhole place hplace).isWhole hload)
    refine ⟨address, document, written, hlocate, hload, hafter, ?_, hrewritten⟩
    exact hrewritten.written _ _ (mem_textsAt_of_locate hplace hlocate)

end

/-- A project with one file for both places of the version. -/
def twofoldSession : Session where
  files := ⟨.directory
    [("app.json", .file "\x7b\"n\": 1, \"package\": \x7b\x7d\x7d\n".toUTF8)], []⟩
  output := ⟨none, []⟩
  events := []

/-- The file by two paths. -/
def twofold : VersionFiles := ⟨"app.json", "./app.json"⟩

theorem writeVersion_foretold_sample :
    twofoldSession.files.tree.IsLinkFree
      ∧ (∀ place ∈ twofold.places,
        HoldsWholeNumbers twofoldSession.files (versionPath "." place))
      ∧ (exec (writeVersion twofold "." "2.0" true) twofoldSession).1 =
        .ok ["app.json", "./app.json"]
      ∧ (exec (writeVersion twofold "." "2.0" true) twofoldSession).2.files = twofoldSession.files
      ∧ ∃ document,
        Document.ofFile (exec (writeVersion twofold "." "2.0" false) twofoldSession).2.files
          "././app.json" = .ok document
        ∧ document.root.valueAt ["version"] = some (.string "2.0")
        ∧ document.root.valueAt ["package", "version"] = some (.string "2.0") := by
  have hlinks : twofoldSession.files.tree.IsLinkFree :=
    Node.isLinkFree_of_isOrdinary (by decide +kernel)
  have hwhole : ∀ place ∈ twofold.places,
      HoldsWholeNumbers twofoldSession.files (versionPath "." place) := by decide +kernel
  have hdry : (exec (writeVersion twofold "." "2.0" true) twofoldSession).1 =
      .ok ["app.json", "./app.json"] := by decide +kernel
  obtain ⟨hresult, hfiles, -, hafter⟩ := @writeVersion_foretold "." "2.0" twofold twofoldSession
    hlinks hwhole
  obtain ⟨hplaces, -⟩ := hafter _ (hresult.symm.trans hdry)
  obtain ⟨address, document, written, hlocate, -, hload, -, hrewritten⟩ :=
    hplaces ("./app.json", ["package"]) (by simp [places, twofold])
  -- both places are in the file that the second path leads to
  have haddress : twofoldSession.files.locate (versionPath "." ("./app.json", ["package"])) =
      .ok ["app.json"] := by decide +kernel
  obtain rfl := Except.ok.inj (haddress.symm.trans hlocate)
  have htexts : textsAt twofoldSession.files "." "2.0" twofold.places ["app.json"] =
      [(["version"], "2.0"), (["package", "version"], "2.0")] := by decide +kernel
  have hpath : versionPath "." ("./app.json", ["package"]) = "././app.json" := by decide +kernel
  rw [htexts] at hrewritten
  rw [hpath] at hload
  exact ⟨hlinks, hwhole, hdry, hfiles, _, hload, hrewritten.written _ _ (by simp),
    hrewritten.written _ _ (by simp)⟩

end VersionFiles

end UpdateFeed
