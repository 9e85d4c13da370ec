import Mathlib.Data.List.Nodup
import UpdateFeed.Proofs.Announcement.Planning
import UpdateFeed.Proofs.Announcement.Redating

/-!
# Announcements that are made again

Where the files to be written are files of their own and hold whole numbers only, a plan that fits
some files fits them also when part of it has been carried out: a file that was rewritten is loaded
as what was written, and the edits find their strings there.  At another time the plan differs in
the dates only.

- `readText_again`: what is read from a file that may have been rewritten.
- `Plan.Fits.again`: a plan, after part of it was carried out.
- `announce_again`: an announcement that is repeated changes the dates only.
-/

namespace UpdateFeed

/-- Whether the numbers of the document at a path are whole, if there is one. -/
def HoldsWholeNumbers (files : FileSystem) (path : String) : Prop :=
  ∀ document, Document.ofFile files path = .ok document →
    ∀ number ∈ document.root.numbers, ∃ value, number = .integer value

/-- Whether a number is a whole one. -/
def Json.Number.isWhole : Json.Number → Bool
  | .integer _ => true
  | .real _ _ => false

theorem Json.Number.isWhole_iff {number : Json.Number} :
    number.isWhole ↔ ∃ value, number = .integer value := by
  cases number <;> simp [Json.Number.isWhole]

theorem holdsWholeNumbers_iff {files : FileSystem} {path : String} :
    HoldsWholeNumbers files path ↔
      ((Document.ofFile files path).toOption.all fun document =>
        document.root.numbers.all (·.isWhole)) = true := by
  unfold HoldsWholeNumbers
  cases Document.ofFile files path with
  | error fault => simp [Except.toOption]
  | ok document => simp [Except.toOption, Json.Number.isWhole_iff]

instance (files : FileSystem) (path : String) : Decidable (HoldsWholeNumbers files path) :=
  decidable_of_iff _ holdsWholeNumbers_iff.symm

theorem HoldsWholeNumbers.isWhole {files : FileSystem} {path : String} {document : Document}
    (h : HoldsWholeNumbers files path) (hload : Document.ofFile files path = .ok document) :
    document.IsWhole := by
  -- a loaded document is well formed, so the numbers are all that is left to be asked
  refine Json.Formed.of_numbers ?_ (h document hload)
  unfold Document.ofFile at hload
  split at hload
  · exact Document.formed_of_ofText hload
  · cases hload

/-- The manifest of a file is its document. -/
theorem Manifest.ofFile_eq_ok_iff {files : FileSystem} {path : String} {manifest : Manifest} :
    Manifest.ofFile files path = .ok manifest ↔
      Document.ofFile files path = .ok manifest.document := by
  unfold Manifest.ofFile
  cases Document.ofFile files path with
  | ok document =>
    obtain ⟨other⟩ := manifest
    simp
  | error fault => simp

namespace Announcement

open Run

section

variable {files : FileSystem} {signature : String → Prop} {rewritings : List Rewriting}
  {rewriting : Rewriting} {dryRun : Bool} {made : List Replacement}

/-! ## §1 Files that may have been rewritten -/

theorem Apart.eq_of_locate (h : Apart files signature (rewritings.map (·.path)))
    {first second : Rewriting} (hfirst : first ∈ rewritings) (hsecond : second ∈ rewritings)
    (hlocate : files.locate first.path = files.locate second.path) : first = second := by
  have hdistinct := List.pairwise_map.mp h.distinct
  -- paths that are apart lead to different places
  have hnodup : (rewritings.map fun rewriting => files.locate rewriting.path).Nodup :=
    List.pairwise_map.mpr hdistinct
  exact List.inj_on_of_nodup_map hnodup hfirst hsecond hlocate

/-- Rewritings of files of their own agree, since no two of them are for one place. -/
theorem Apart.consistent (h : Apart files signature (rewritings.map (·.path))) :
    Consistent (rewritings.flatMap (·.replacements dryRun files)) := by
  intro first hfirst second hsecond hplace
  obtain ⟨one, hone, hfirst⟩ := List.mem_flatMap.mp hfirst
  obtain ⟨other, hother, hsecond⟩ := List.mem_flatMap.mp hsecond
  obtain ⟨-, hlocate, hcontent⟩ := Rewriting.mem_replacements.mp hfirst
  obtain ⟨-, hlocate', hcontent'⟩ := Rewriting.mem_replacements.mp hsecond
  -- two rewritings for one place are the same one
  obtain rfl := h.eq_of_locate hone hother (by rw [hlocate, hlocate', hplace])
  obtain ⟨place, content⟩ := first
  obtain ⟨place', content'⟩ := second
  rw [Replacement.mk.injEq]
  exact ⟨hplace, hcontent.trans hcontent'.symm⟩

/-- What was rewritten is clear of the signatures. -/
theorem Apart.clear_signature (h : Apart files signature (rewritings.map (·.path)))
    (hmade : made ⊆ rewritings.flatMap (·.replacements dryRun files)) :
    Clear files signature made := by
  intro found hfound replacement hmem hlocate
  obtain ⟨other, hother, hreplacement⟩ := List.mem_flatMap.mp (hmade hmem)
  obtain ⟨-, hplace, -⟩ := Rewriting.mem_replacements.mp hreplacement
  exact h.unsigned other.path (List.mem_map_of_mem hother) found hfound
    (hlocate.trans hplace.symm)

/-- A file that was rewritten holds its text, since no other rewriting is for its place. -/
theorem Apart.holdingAt_overwritten (h : Apart files signature (rewritings.map (·.path)))
    (hrewriting : rewriting ∈ rewritings)
    (hmade : made ⊆ rewritings.flatMap (·.replacements dryRun files)) {place : Address}
    (hplace : place ∈ made.map (·.place)) (hlocate : files.locate rewriting.path = .ok place) :
    (files.overwritten made).tree.holdingAt place = some (.file rewriting.text.toUTF8) := by
  obtain ⟨replacement, hmem, rfl⟩ := List.mem_map.mp hplace
  obtain ⟨other, hother, hreplacement⟩ := List.mem_flatMap.mp (hmade hmem)
  obtain ⟨-, hplace, hcontent⟩ := Rewriting.mem_replacements.mp hreplacement
  -- whatever was made for the place comes from this rewriting
  obtain rfl := h.eq_of_locate hother hrewriting (hplace.trans hlocate.symm)
  obtain ⟨place, content, hregular, -, hfile⟩ :=
    h.regular other.path (List.mem_map_of_mem hother)
  obtain rfl := Except.ok.inj (hregular.symm.trans hlocate)
  have hholds : files.tree.holdingAt replacement.place = some (.file content) := by
    rw [Node.holdingAt, FileSystem.at?_of_node? hfile hlocate]
    rfl
  rw [← hcontent]
  exact FileSystem.holdingAt_overwritten_of_mem (h.consistent.of_subset hmade) hmem hholds

theorem Apart.holdingAt_rewritten (h : Apart files signature (rewritings.map (·.path)))
    (hrewriting : rewriting ∈ rewritings) {place : Address}
    (hlocate : files.locate rewriting.path = .ok place) :
    (files.overwritten (rewritings.flatMap (·.replacements false files))).tree.holdingAt place =
      some (.file rewriting.text.toUTF8) := by
  have hmem : ⟨place, rewriting.text.toUTF8⟩ ∈
      rewritings.flatMap (·.replacements false files) :=
    List.mem_flatMap.mpr ⟨rewriting, hrewriting,
      Rewriting.mem_replacements.mpr ⟨rfl, hlocate, rfl⟩⟩
  exact h.holdingAt_overwritten hrewriting (List.Subset.refl _)
    (List.mem_map.mpr ⟨_, hmem, rfl⟩) hlocate

/-- A file that may have been rewritten is read as before, or as it was rewritten. -/
theorem readText_again (h : Apart files signature (rewritings.map (·.path)))
    (hrewriting : rewriting ∈ rewritings)
    (hmade : made ⊆ rewritings.flatMap (·.replacements dryRun files)) :
    (files.overwritten made).readText rewriting.path = files.readText rewriting.path
      ∨ (files.overwritten made).readText rewriting.path = .ok rewriting.text := by
  have hagree := FileSystem.agree_overwritten files made
  -- its place is among those that were rewritten, or nothing there has changed
  by_cases hown : ∃ replacement ∈ made, files.locate rewriting.path = .ok replacement.place
  · obtain ⟨replacement, hmem, hlocate⟩ := hown
    exact .inr (FileSystem.readText_of_holdingAt ((hagree.locate _).trans hlocate)
      (h.holdingAt_overwritten hrewriting hmade (List.mem_map_of_mem hmem) hlocate))
  · exact .inl (hagree.readText fun replacement hmem hlocate =>
      hown ⟨replacement, hmem, hlocate⟩)

theorem ofFile_again {second : FileSystem} {document : Document} {path text : String}
    (hread : second.readText path = files.readText path ∨ second.readText path = .ok text)
    (hload : Document.ofFile files path = .ok document) :
    Document.ofFile second path = .ok document
      ∨ Document.ofFile second path = Document.ofText path text := by
  unfold Document.ofFile at hload ⊢
  rcases hread with hread | hread
  · left
    rw [hread, hload]
  · right
    rw [hread]

end

section

variable {root : String} {config : Config} {request : Request} {now : Instant}
  {files second : FileSystem}

/-! ## §2 Plans of which part was carried out -/

/-- A manifest is prepared when it is loaded, a signature is chosen and the edits are made. -/
theorem prepare_eq_ok_iff {target : Target} {manifest : Manifest}
    {signature? : Option (String × String)} :
    prepare root config request now target files = .ok (manifest, signature?) ↔
      ∃ document, Document.ofFile files (manifestPath root config target) = .ok document
        ∧ choice request.strictness target (config.settings target).signaturePattern
          (Signature.search files root (config.settings target).signaturePattern).2 =
            .ok signature?
        ∧ editManifest (config.settings target) request now (signature?.map Prod.snd)
          ⟨document⟩ = .ok manifest := by
  constructor
  · intro h
    obtain ⟨loaded, hloaded, h⟩ := exists_of_bind_eq_ok h
    obtain ⟨chosen, hchosen, h⟩ := exists_of_bind_eq_ok h
    obtain ⟨changed, hchanged, h⟩ := exists_of_bind_eq_ok h
    obtain ⟨rfl, rfl⟩ : changed = manifest ∧ chosen = signature? := by simpa using h
    exact ⟨loaded.document, Manifest.ofFile_eq_ok_iff.mp (mapError_eq_ok.mp hloaded), hchosen,
      mapError_eq_ok.mp hchanged⟩
  · -- the three parts, in the order of the step
    rintro ⟨document, hloaded, hchosen, hedited⟩
    have hmanifest : Manifest.ofFile files (manifestPath root config target) = .ok ⟨document⟩ :=
      Manifest.ofFile_eq_ok_iff.mpr hloaded
    unfold prepare
    dsimp only
    rw [show Path.join root (config.settings target).manifest = manifestPath root config target
      from rfl, mapError_eq_ok.mpr hmanifest, ok_bind, hchosen, ok_bind,
      mapError_eq_ok.mpr hedited, ok_bind]

/-- What a target prints at another time. -/
def Printout.dated (later : Instant) (printout : Printout) : Printout :=
  { printout with manifest := printout.manifest.dated later }

/-- A target prints the same but for the date when its manifest may have been rewritten. -/
theorem Printout.Prepared.again {printout : Printout}
    (h : printout.Prepared root config request now files)
    (hwhole : HoldsWholeNumbers files (manifestPath root config printout.target))
    (hsearch : Signature.search second root (config.settings printout.target).signaturePattern =
      Signature.search files root (config.settings printout.target).signaturePattern)
    (hread : second.readText (manifestPath root config printout.target) =
        files.readText (manifestPath root config printout.target)
      ∨ second.readText (manifestPath root config printout.target) = .ok printout.text)
    (later : Instant) :
    (printout.dated later).Prepared root config request later second := by
  obtain ⟨document, hloaded, hchosen, hedited⟩ := prepare_eq_ok_iff.mp h
  have hedits : printout.manifest.document.IsWhole := by
    have hloadedWhole : (⟨document⟩ : Manifest).document.IsWhole := hwhole.isWhole hloaded
    exact formed_editManifest hloadedWhole hedited
  have hown : Document.ofText (manifestPath root config printout.target) printout.text =
      .ok printout.manifest.document := by
    rw [← path_of_prepare h]
    exact hedits.ofText_render
  refine prepare_eq_ok_iff.mpr ?_
  dsimp only [Printout.dated]
  rw [hsearch]
  rcases ofFile_again hread hloaded with hsame | hwritten
  · exact ⟨document, hsame, hchosen, editManifest_later hedited later⟩
  · -- the manifest that was written is edited once more
    exact ⟨printout.manifest.document, hwritten.trans hown, hchosen,
      editManifest_again hedited later⟩

/-- A version file that may have been revised is revised to the same. -/
theorem Revision.Prepared.again {revision : Revision}
    (h : revision.Prepared root request files)
    (hwhole : HoldsWholeNumbers files (versionPath root revision.place))
    (hread : second.readText (versionPath root revision.place) =
        files.readText (versionPath root revision.place)
      ∨ second.readText (versionPath root revision.place) = .ok revision.document.render) :
    revision.Prepared root request second := by
  obtain ⟨version, document, hversion, hloaded, hedited⟩ := h
  rcases ofFile_again hread hloaded with hsame | hwritten
  · exact ⟨version, document, hversion, hsame, hedited⟩
  · obtain ⟨changed, hchanged, hdocument⟩ := Document.putString_eq_ok_iff.mp hedited
    have hpath : document.path = versionPath root revision.place := Document.path_of_ofFile hloaded
    -- edits keep a document whole, so what was written is read back
    have hrevised : revision.document.IsWhole := by
      rw [hdocument]
      exact Json.formed_putString (hwhole.isWhole hloaded) hchanged
    have hown : Document.ofText (versionPath root revision.place) revision.document.render =
        .ok revision.document := by
      rw [← hpath, show document.path = revision.document.path by rw [hdocument]]
      exact hrevised.ofText_render
    -- the version is there already
    have hvalue := (Json.rewritten_putString hchanged).written _ version (List.mem_singleton_self _)
    refine ⟨version, revision.document, hversion, hwritten.trans hown, ?_⟩
    rw [hdocument]
    unfold Document.putString
    rw [Json.putString_of_valueAt hvalue]

/-- A plan for another time. -/
def Plan.dated (later : Instant) (plan : Plan) : Plan :=
  { plan with printouts := plan.printouts.map (·.dated later) }

/-- A plan that fits some files fits them also when some of its replacements are made, but for the
dates. -/
theorem Plan.Fits.again {plan : Plan} {made : List Replacement}
    (h : plan.Fits root config request now files)
    (hapart : Apart files (TakesForSignature root config request files)
      (writtenPaths root config request))
    (hwhole : ∀ path ∈ writtenPaths root config request, HoldsWholeNumbers files path)
    (hmade : made ⊆ plan.replacements root config request.dryRun files) (later : Instant) :
    (plan.dated later).Fits root config request later (files.overwritten made) := by
  have hpaths := h.sublist
  have hown := hapart.sublist hpaths
  -- every file of the plan is as it was, or as the plan has written it
  have hread : ∀ rewriting ∈ plan.rewritings root config,
      HoldsWholeNumbers files rewriting.path
        ∧ ((files.overwritten made).readText rewriting.path = files.readText rewriting.path
          ∨ (files.overwritten made).readText rewriting.path = .ok rewriting.text) := by
    intro rewriting hmem
    exact ⟨hwhole _ (hpaths.subset (List.mem_map_of_mem hmem)), readText_again hown hmem hmade⟩
  have hclear := hown.clear_signature hmade
  refine ⟨?_, ?_, h.places, ?_⟩
  · rw [← h.targets, Plan.dated, List.map_map]
    rfl
  · -- no signature was written, so the search finds what it found
    intro printout hprintout
    obtain ⟨former, hformer, rfl⟩ := List.mem_map.mp hprintout
    have hmem : former.rewriting root config ∈ plan.rewritings root config :=
      List.mem_append_left _ (List.mem_map_of_mem hformer)
    refine (h.prepared former hformer).again (hread _ hmem).1 ?_ (hread _ hmem).2 later
    exact Signature.search_of_agree hclear.agree fun path hpath =>
      ⟨former.target, h.targets ▸ List.mem_map_of_mem hformer, hpath⟩
  · -- a version file is revised to the same, whether it was written or not
    intro revision hrevision
    have hmem : revision.rewriting root ∈ plan.rewritings root config :=
      List.mem_append_right _ (List.mem_map_of_mem hrevision)
    exact (h.revised revision hrevision).again (hread _ hmem).1 (hread _ hmem).2

/-- The replacements of a plan are for different places. -/
theorem Plan.Fits.consistent {plan : Plan} (h : plan.Fits root config request now files)
    (hapart : Apart files (TakesForSignature root config request files)
      (writtenPaths root config request)) (dryRun : Bool) :
    Consistent (plan.replacements root config dryRun files) :=
  (hapart.sublist h.sublist).consistent

/-- What a target prints at the same time is the same. -/
theorem Printout.Prepared.dated_self {printout : Printout}
    (h : printout.Prepared root config request now files) : printout.dated now = printout := by
  obtain ⟨_, _, _, hedited⟩ := prepare_eq_ok_iff.mp h
  rw [Printout.dated, dated_of_editManifest hedited]

theorem Plan.Fits.dated_self {plan : Plan} (h : plan.Fits root config request now files) :
    plan.dated now = plan := by
  have hsame : plan.printouts.map (·.dated now) = plan.printouts.map id :=
    List.map_congr_left fun printout hmem => (h.prepared printout hmem).dated_self
  rw [Plan.dated, hsame, List.map_id]

/-! ## §3 Announcements that are made again -/

/-- Two texts of a manifest that differ in the value of the publication date at most. -/
def Redated (now later : Instant) (former latter : String) : Prop :=
  ∃ (document : Document) (front rest : Json.Members), "pub_date" ∉ front.map Prod.fst
    ∧ former = Document.render { document with
        root := .object (front ++ ("pub_date", .string now.timestamp) :: rest) }
    ∧ latter = Document.render { document with
        root := .object (front ++ ("pub_date", .string later.timestamp) :: rest) }

/-- The text of a prepared printout, and that for another time. -/
theorem Printout.Prepared.redated {printout : Printout}
    (h : printout.Prepared root config request now files) (later : Instant) :
    Redated now later printout.text (printout.dated later).text := by
  obtain ⟨document, -, -, hedited⟩ := prepare_eq_ok_iff.mp h
  -- the date is the last edit of the manifest
  obtain ⟨listed, hlisted, hedited⟩ := exists_of_bind_eq_ok hedited
  obtain ⟨numbered, hnumbered, hedited⟩ := exists_of_bind_eq_ok hedited
  obtain ⟨noted, hnoted, hdated⟩ := exists_of_bind_eq_ok hedited
  obtain ⟨members, -, hmanifest⟩ := Manifest.withMember_eq_ok_iff.mp hdated
  -- its member stands in one place, with the same members around it
  obtain ⟨front, rest, hmembers, hfront, hassign⟩ :=
    Json.exists_of_lookup (Json.lookup_assign_self "pub_date" (.string now.timestamp) members)
  refine ⟨noted.document, front, rest, hfront, ?_, ?_⟩
  · rw [Printout.text, hmanifest, ← hmembers]
    rfl
  · rw [Printout.text, Printout.dated, hmanifest, ← hassign]
    rfl

/-- The manifests of a plan as they are rewritten at another time. -/
def Plan.datedManifests (root : String) (config : Config) (later : Instant) (plan : Plan) :
    List Rewriting :=
  plan.printouts.map fun printout => (printout.dated later).rewriting root config

theorem Plan.rewritings_dated (root : String) (config : Config) (later : Instant) (plan : Plan) :
    (plan.dated later).rewritings root config =
      plan.datedManifests root config later ++ plan.revisions.map (·.rewriting root) := by
  rw [Plan.rewritings, Plan.dated, List.map_map]
  rfl

/-- A plan for another time is for the same files. -/
theorem Plan.paths_dated (root : String) (config : Config) (later : Instant) (plan : Plan) :
    ((plan.dated later).rewritings root config).map (·.path) =
      (plan.rewritings root config).map (·.path) := by
  rw [Plan.rewritings_dated, Plan.rewritings, Plan.datedManifests, List.map_append, List.map_append,
    List.map_map, List.map_map (f := Printout.rewriting root config)]
  rfl

/-- When a plan was carried out, the same plan for another time replaces the manifests only. -/
theorem Plan.overwritten_again {plan : Plan} {signature : String → Prop}
    (hown : Apart files signature ((plan.rewritings root config).map (·.path))) (dryRun : Bool)
    (later : Instant) :
    (files.overwritten (plan.replacements root config dryRun files)).overwritten
        ((plan.dated later).replacements root config dryRun files) =
      (files.overwritten (plan.replacements root config dryRun files)).overwritten
        ((plan.datedManifests root config later).flatMap (·.replacements dryRun files)) := by
  have hconsistent : Consistent ((plan.dated later).replacements root config dryRun files) :=
    Apart.consistent (Plan.paths_dated root config later plan ▸ hown)
  -- the version files of both plans are the same
  have hrevisions : (plan.revisions.map (·.rewriting root)).flatMap (·.replacements dryRun files) ⊆
      plan.replacements root config dryRun files := by
    rw [Plan.replacements, Plan.rewritings, List.flatMap_append]
    exact List.subset_append_right _ _
  have hall : Consistent (plan.replacements root config dryRun files) := hown.consistent
  have hdated : (plan.dated later).replacements root config dryRun files =
      (plan.datedManifests root config later).flatMap (·.replacements dryRun files)
        ++ (plan.revisions.map (·.rewriting root)).flatMap (·.replacements dryRun files) := by
    rw [Plan.replacements, Plan.rewritings_dated, List.flatMap_append]
  rw [hdated] at hconsistent ⊢
  -- the version files come first, and what they become is there already
  rw [FileSystem.overwritten_append_comm hconsistent, FileSystem.overwritten_append,
    ← FileSystem.overwritten_append files (plan.replacements root config dryRun files),
    FileSystem.overwritten_append_of_subset hall hrevisions]

/-- When a plan was carried out, the announcement goes by the same plan again, but for the dates. -/
theorem announce_of_fits_again {plan : Plan} {again : Session}
    (h : plan.Fits root config request now files)
    (hapart : Apart files (TakesForSignature root config request files)
      (writtenPaths root config request))
    (hwhole : ∀ path ∈ writtenPaths root config request, HoldsWholeNumbers files path)
    (hfiles : again.files =
      files.overwritten (plan.replacements root config request.dryRun files))
    (later : Instant) (hroom : again.output.HasRoom (printed (plan.dated later).printouts)) :
    ∃ last, exec (announce root config request later) again = (.ok (plan.report config), last)
      ∧ last.files = again.files.overwritten ((plan.datedManifests root config later).flatMap
        (·.replacements request.dryRun again.files))
      ∧ last.output = again.output.holding (printed (plan.dated later).printouts) := by
  have hagain := h.again hapart hwhole (List.Subset.refl _) later
  -- what was written lies where it did, so the files are still files of their own
  have hapart' : Apart again.files (TakesForSignature root config request again.files)
      (writtenPaths root config request) := by
    rw [hfiles, takesForSignature_overwritten]
    exact hapart.overwritten _
  rw [← hfiles] at hagain
  obtain ⟨last, hlast, hlastFiles, hlastOutput⟩ := announce_of_fits hapart' hagain hroom
  -- a report names no date
  have hreport : (plan.dated later).report config = plan.report config := by
    rw [Plan.report, Plan.dated, List.map_map]
    rfl
  refine ⟨last, hreport ▸ hlast, ?_, hlastOutput⟩
  have hown := hapart.sublist h.sublist
  rw [hlastFiles, hfiles, Plan.replacements_overwritten, Plan.overwritten_again hown]
  simp only [Rewriting.replacements_overwritten]

/-- The files of a plan are files of their own still when it was carried out. -/
theorem Plan.apart_datedManifests {plan : Plan} {signature : String → Prop}
    (hown : Apart files signature ((plan.rewritings root config).map (·.path)))
    (made : List Replacement) (later : Instant) :
    Apart (files.overwritten made) signature
      ((plan.datedManifests root config later).map (·.path)) := by
  have hpaths := Plan.paths_dated root config later plan ▸ hown
  rw [Plan.rewritings_dated, List.map_append] at hpaths
  exact (hpaths.sublist (List.sublist_append_left _ _)).overwritten made

/-- What the manifests of a plan hold when it was carried out, and then for another time. -/
theorem Plan.Fits.redated {plan : Plan} {signature : String → Prop} {last : FileSystem}
    {printout : Printout} (h : plan.Fits root config request now files)
    (hown : Apart files signature ((plan.rewritings root config).map (·.path)))
    (hprintout : printout ∈ plan.printouts) (later : Instant)
    (hsecond : second = files.overwritten (plan.replacements root config false files))
    (hlast : last = second.overwritten
      ((plan.datedManifests root config later).flatMap (·.replacements false second))) :
    ∃ place former latter,
      second.locate (manifestPath root config printout.target) = .ok place
      ∧ second.tree.holdingAt place = some (.file former.toUTF8)
      ∧ last.tree.holdingAt place = some (.file latter.toUTF8)
      ∧ Redated now later former latter := by
  have hformer : printout.rewriting root config ∈ plan.rewritings root config :=
    List.mem_append_left _ (List.mem_map_of_mem hprintout)
  have hlatter : (printout.dated later).rewriting root config ∈
      plan.datedManifests root config later := List.mem_map_of_mem hprintout
  obtain ⟨place, _, hplace, -, -⟩ := hown.regular _ (List.mem_map_of_mem hformer)
  -- overwriting does not move files
  have hlocate : second.locate (manifestPath root config printout.target) = .ok place := by
    rw [hsecond]
    exact ((FileSystem.agree_overwritten files _).locate _).trans hplace
  refine ⟨place, printout.text, (printout.dated later).text, hlocate, ?_, ?_,
    (h.prepared printout hprintout).redated later⟩
  · rw [hsecond]
    exact hown.holdingAt_rewritten hformer hplace
  · rw [hlast]
    -- at the other time the same files are rewritten
    have hdated : Apart second signature
        ((plan.datedManifests root config later).map (·.path)) := by
      rw [hsecond]
      exact Plan.apart_datedManifests hown _ later
    exact hdated.holdingAt_rewritten hlatter hlocate

/-- At the same time the manifests are rewritten to what they are. -/
theorem Plan.Fits.overwritten_self {plan : Plan} (h : plan.Fits root config request now files)
    (hapart : Apart files (TakesForSignature root config request files)
      (writtenPaths root config request)) (dryRun : Bool)
    (hsecond : second = files.overwritten (plan.replacements root config dryRun files)) :
    second.overwritten ((plan.datedManifests root config now).flatMap
      (·.replacements dryRun second)) = second := by
  -- at the same time the manifests are those of the plan itself
  have hsame : plan.datedManifests root config now = plan.printouts.map (·.rewriting root config) :=
    List.map_congr_left fun printout hprintout => by
      rw [(h.prepared printout hprintout).dated_self]
  have hmade : (plan.printouts.map (·.rewriting root config)).flatMap
      (·.replacements dryRun files) ⊆ plan.replacements root config dryRun files := by
    rw [Plan.replacements, Plan.rewritings, List.flatMap_append]
    exact List.subset_append_left _ _
  rw [hsecond, hsame]
  simp only [Rewriting.replacements_overwritten]
  rw [← FileSystem.overwritten_append,
    FileSystem.overwritten_append_of_subset (h.consistent hapart dryRun) hmade]

/-- An announcement that succeeded is made again, at any time, on the files that it has left.  It
succeeds with the same report and changes no file but the selected manifests, and those in the value
of their publication date at most; at the same time it changes nothing at all and prints the same.
-/
theorem announce_again {session again after : Session} {report : Report} (later : Instant)
    (hapart : Apart session.files (TakesForSignature root config request session.files)
      (writtenPaths root config request))
    (hwhole : ∀ path ∈ writtenPaths root config request, HoldsWholeNumbers session.files path)
    (hfirst : exec (announce root config request now) session = (.ok report, after))
    (hfiles : again.files = after.files) (houtput : again.output.limit? = none) :
    ∃ last, exec (announce root config request later) again = (.ok report, last)
      ∧ (request.dryRun = true → last.files = after.files)
      ∧ last.files.outlined = after.files.outlined
      ∧ (∀ place, (∀ target ∈ request.selector.targets,
            after.files.locate (manifestPath root config target) ≠ .ok place) →
          last.files.tree.holdingAt place = after.files.tree.holdingAt place)
      ∧ (request.dryRun = false → ∀ target ∈ request.selector.targets,
          ∃ place former latter,
            after.files.locate (manifestPath root config target) = .ok place
            ∧ after.files.tree.holdingAt place = some (.file former.toUTF8)
            ∧ last.files.tree.holdingAt place = some (.file latter.toUTF8)
            ∧ Redated now later former latter)
      ∧ (later = now → last.files = after.files
          ∧ ∃ bytes, after.output = session.output.holding bytes
            ∧ last.output = again.output.holding bytes) := by
  -- the first announcement has gone by a plan, and the second goes by it again
  obtain ⟨plan, hfits, rfl, hafter, hheld⟩ := exists_plan hapart hfirst
  obtain ⟨last, hlast, hlastFiles, hlastOutput⟩ := announce_of_fits_again hfits hapart hwhole
    (hfiles.trans hafter) later (Output.hasRoom_of_unlimited houtput)
  rw [hfiles] at hlastFiles
  refine ⟨last, hlast, ?_, ?_, ?_, ?_, ?_⟩
  · -- a dry run replaces nothing
    intro hdry
    have hnone : (plan.datedManifests root config later).flatMap
        (·.replacements true after.files) = [] := List.flatMap_eq_nil_iff.mpr fun _ _ => rfl
    rw [hlastFiles, hdry, hnone, FileSystem.overwritten_nil]
  · rw [hlastFiles, FileSystem.outlined_overwritten]
  · -- each replacement is for the place of a selected manifest
    intro place helsewhere
    rw [hlastFiles]
    refine FileSystem.holdingAt_overwritten_of_ne fun replacement hmem hplace => ?_
    obtain ⟨rewriting, hrewriting, hreplacement⟩ := List.mem_flatMap.mp hmem
    obtain ⟨printout, hprintout, rfl⟩ := List.mem_map.mp hrewriting
    obtain ⟨-, hlocate, -⟩ := Rewriting.mem_replacements.mp hreplacement
    exact helsewhere printout.target (hfits.targets ▸ List.mem_map_of_mem hprintout)
      (hplace ▸ hlocate)
  · -- a selected manifest was rewritten twice, the second time for the other date
    intro hreal target htarget
    rw [← hfits.targets] at htarget
    obtain ⟨printout, hprintout, rfl⟩ := List.mem_map.mp htarget
    rw [hreal] at hafter hlastFiles
    exact hfits.redated (hapart.sublist hfits.sublist) hprintout later hafter hlastFiles
  · -- the plan for the same time is the plan, and what it writes is there
    rintro rfl
    rw [hfits.dated_self] at hlastOutput
    rw [hfits.overwritten_self hapart request.dryRun hafter] at hlastFiles
    exact ⟨hlastFiles, printed plan.printouts, hheld, hlastOutput⟩

end

/-- The small project is announced again a minute later. -/
theorem announce_again_sample :
    let first := exec (announce "." sampleConfig sampleRequest ⟨0, 0⟩) sampleSession
    let report : Report :=
      ⟨[⟨.linux, "feed.json", some "./app1.sig"⟩], ["package.json", "conf.json"]⟩
    Apart sampleSession.files
        (TakesForSignature "." sampleConfig sampleRequest sampleSession.files)
        (writtenPaths "." sampleConfig sampleRequest)
      ∧ (∀ path ∈ writtenPaths "." sampleConfig sampleRequest,
        HoldsWholeNumbers sampleSession.files path)
      ∧ first.1 = .ok report
      ∧ ∃ last, exec (announce "." sampleConfig sampleRequest ⟨60, 0⟩)
          ⟨first.2.files, ⟨none, []⟩, []⟩ = (.ok report, last)
        ∧ last.files.outlined = first.2.files.outlined := by
  intro first report
  have hwhole : ∀ path ∈ writtenPaths "." sampleConfig sampleRequest,
      HoldsWholeNumbers sampleSession.files path := by
    decide +kernel
  have hfirst : first.1 = .ok report := by
    decide +kernel
  let again : Session := ⟨first.2.files, ⟨none, []⟩, []⟩
  obtain ⟨last, hlast, _, houtline, _⟩ := announce_again ⟨60, 0⟩ apart_sampleFiles hwhole
    (Prod.ext hfirst rfl) (show again.files = first.2.files from rfl) rfl
  exact ⟨apart_sampleFiles, hwhole, hfirst, last, hlast, houtline⟩

end Announcement

end UpdateFeed
