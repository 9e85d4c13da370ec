import UpdateFeed.Proofs.Announcement.Repetition

/-!
# Platforms that a manifest lists

An announcement never adds a platform to a manifest, so a signature or an address can only be given
to a platform that the manifest lists.  A step that has something to give is therefore a check of
all platforms of its target, and an announcement stops at the first manifest that does not pass it.

A step without a version and without a signature has nothing to give.  It passes over the platforms:
whichever of them belong to the target, it sets the notes and the date of the manifest.

- `lists_of_editManifest`: the edits of a release check the platforms.
- `announce_listing`: the manifests of an announcement that succeeds, where one stops, and the steps
  that check nothing.
-/

namespace UpdateFeed

/-! ## §1 Listed platforms -/

namespace Manifest

variable {before after changed manifest : Manifest} {platform field text : String}

/-- Whether a manifest lists a platform: it has an object `platforms`, and in this an object for the
platform. -/
def Lists (manifest : Manifest) (platform : String) : Prop :=
  ∃ members, manifest.document.root.valueAt ["platforms", platform] = some (.object members)

instance (manifest : Manifest) (platform : String) : Decidable (manifest.Lists platform) :=
  decidable_of_iff ((manifest.document.root.keysAt ["platforms", platform]).isSome)
    Json.isSome_keysAt_iff

/-- A member can be set for a platform only if the manifest lists it. -/
theorem lists_of_withPlatformMember
    (h : manifest.withPlatformMember platform field text = .ok changed) :
    manifest.Lists platform := by
  unfold withPlatformMember at h
  split at h
  · rename_i document hput
    obtain ⟨root, hroot, -⟩ := Document.putString_eq_ok_iff.mp hput
    exact Json.exists_object_of_putString hroot
  · cases h
  · cases h

/-- New strings within platforms do not change which platforms are listed. -/
theorem Edited.lists_iff {texts : Json.Texts} (h : Edited texts before after)
    (apart : ∀ place text, (place, text) ∈ texts → ¬ place <+: ["platforms", platform]) :
    after.Lists platform ↔ before.Lists platform := by
  obtain ⟨root, rfl, hroot⟩ := h
  exact hroot.object_iff apart

end Manifest

namespace Announcement

open Run

variable {root : String} {config : Config} {request : Request} {now : Instant}
  {settings : TargetSettings} {signature? url? : Option String} {before after : Manifest}

/-! ## §2 The edits as a check -/

/-- The edits of a platform, if there are any, check that it is listed. -/
theorem lists_of_editPlatform {platform : String}
    (hgiven : signature?.isSome ∨ url?.isSome)
    (h : editPlatform signature? url? before platform = .ok after) : before.Lists platform := by
  obtain ⟨signed, hsigned, haddressed⟩ := exists_of_bind_eq_ok h
  cases signature? with
  | some signature => exact Manifest.lists_of_withPlatformMember hsigned
  | none =>
    -- without a signature the address is the first edit
    obtain rfl := Except.ok.inj hsigned
    cases url? with
    | some url => exact Manifest.lists_of_withPlatformMember haddressed
    | none => simp at hgiven

/-- The edits of a platform leave the list of platforms as it is. -/
theorem lists_editPlatform_iff {platform other : String}
    (h : editPlatform signature? url? before platform = .ok after) :
    after.Lists other ↔ before.Lists other := by
  apply (edited_editPlatform h).lists_iff
  intro place text hmem hprefix
  -- the new strings are members of platforms, one key deeper
  rcases mem_platformTexts.mp hmem with ⟨rfl, -⟩ | ⟨rfl, -⟩
  · simpa using hprefix.length_le
  · simpa using hprefix.length_le

/-- The edits of several platforms, one after the other, check each of them in the manifest from
which they start. -/
theorem lists_of_editPlatforms {platforms : List String}
    (hgiven : signature?.isSome ∨ url?.isSome)
    (h : platforms.foldlM (editPlatform signature? url?) before = .ok after) :
    ∀ platform ∈ platforms, before.Lists platform := by
  induction platforms generalizing before with
  | nil => simp
  | cons first platforms ih =>
    rw [List.foldlM_cons] at h
    obtain ⟨between, hfirst, hrest⟩ := exists_of_bind_eq_ok h
    intro platform hmem
    -- the first platform is checked at once, and the others behind edits that keep the list
    rcases List.mem_cons.mp hmem with rfl | hmem
    · exact lists_of_editPlatform hgiven hfirst
    · exact (lists_editPlatform_iff hfirst).mp (ih hrest platform hmem)

/-- The edits of a release with a signature or a version check every platform of the target. -/
theorem lists_of_editManifest (hgiven : signature?.isSome ∨ request.version?.isSome)
    (h : editManifest settings request now signature? before = .ok after) :
    ∀ platform ∈ settings.platforms, before.Lists platform := by
  obtain ⟨listed, hlisted, -⟩ := exists_of_bind_eq_ok h
  apply lists_of_editPlatforms _ hlisted
  simpa using hgiven

/-- The edits of a release without a signature and a version do not depend on the platforms. -/
theorem editManifest_platforms (hversion : request.version? = none) (platforms : List String) :
    editManifest { settings with platforms } request now none before =
      editManifest settings request now none before := by
  -- with nothing to be given no platform is looked up
  have hfold : ∀ names : List String,
      names.foldlM (editPlatform none none) before = .ok before := by
    intro names
    induction names with
    | nil => rfl
    | cons name names ih =>
      rw [List.foldlM_cons]
      exact ih
  unfold editManifest
  simp only [hversion, Option.map_none, hfold]

/-! ## §3 Steps -/

/-- Whether a step passes over the platforms of its target: there is neither a version nor a
signature to be given to them. -/
structure PassesOver (root : String) (config : Config) (request : Request) (target : Target)
    (files : FileSystem) : Prop where
  unversioned : request.version? = none
  unsigned : choice request.strictness target (config.settings target).signaturePattern
    (Signature.search files root (config.settings target).signaturePattern).2 = .ok none

/-- A step that ends with an entry.  With a version or a signature, the manifest that it has loaded
lists every platform of the target. -/
structure ListingStep (root : String) (config : Config) (request : Request) (now : Instant)
    (entry : Entry) (before after : Session) : Prop where
  run : exec (announceTarget root config request now entry.target) before = (.ok entry, after)
  listed : ∃ manifest,
    Manifest.ofFile before.files (Path.join root (config.settings entry.target).manifest) =
        .ok manifest
      ∧ (request.version?.isSome ∨ entry.isSigned →
        ∀ platform ∈ (config.settings entry.target).platforms, manifest.Lists platform)

section

variable {target : Target} {files : FileSystem} {output : Output} {session after : Session}

/-- A manifest that is ready to be saved has passed the check, if there was one. -/
theorem lists_of_prepare {manifest : Manifest} {chosen? : Option (String × String)}
    (h : prepare root config request now target files = .ok (manifest, chosen?)) :
    ∃ loaded, Manifest.ofFile files (Path.join root (config.settings target).manifest) = .ok loaded
      ∧ (chosen?.isSome ∨ request.version?.isSome →
        ∀ platform ∈ (config.settings target).platforms, loaded.Lists platform) := by
  obtain ⟨document, hloaded, -, hedited⟩ := prepare_eq_ok_iff.mp h
  refine ⟨⟨document⟩, Manifest.ofFile_eq_ok_iff.mpr hloaded, fun hgiven => ?_⟩
  apply lists_of_editManifest _ hedited
  simpa using hgiven

/-- The entry of a step tells its target, and what was chosen as its signature. -/
theorem exists_of_targetEffect {entry : Entry}
    (h : (targetEffect root config request now target files output).1 = .ok entry) :
    ∃ manifest chosen?, prepare root config request now target files = .ok (manifest, chosen?)
      ∧ entry = ⟨target, (config.settings target).manifest, chosen?.map Prod.fst⟩ := by
  unfold targetEffect at h
  split at h
  · cases h
  · rename_i manifest chosen? hprepare
    refine ⟨manifest, chosen?, hprepare, ?_⟩
    -- saving and printing have not failed either
    split at h
    · cases h
    · dsimp only at h
      split at h
      · exact (Except.ok.inj h).symm
      · cases h

theorem target_of_exec {entry : Entry}
    (h : exec (announceTarget root config request now target) session = (.ok entry, after)) :
    entry.target = target := by
  have heffect := (exec_announceTarget_eq root config request now target session).1
  rw [h] at heffect
  obtain ⟨_, _, -, rfl⟩ := exists_of_targetEffect heffect.symm
  rfl

theorem listingStep_of_exec {entry : Entry}
    (h : exec (announceTarget root config request now entry.target) session =
      (.ok entry, after)) :
    ListingStep root config request now entry session after := by
  have heffect := (exec_announceTarget_eq root config request now entry.target session).1
  rw [h] at heffect
  obtain ⟨_, chosen?, hprepare, hentry⟩ := exists_of_targetEffect heffect.symm
  obtain ⟨loaded, hloaded, hlists⟩ := lists_of_prepare hprepare
  refine ⟨h, loaded, hloaded, fun hgiven => hlists ?_⟩
  -- an entry is signed when a signature was chosen
  have hsigned : entry.isSigned = chosen?.isSome := by
    rw [Entry.isSigned, hentry, Option.isSome_map]
  rw [← hsigned]
  exact hgiven.symm

/-- A step that does not pass over the platforms fails at a manifest that lacks one of them, and has
done nothing then. -/
theorem targetEffect_of_unlisted {manifest : Manifest}
    (hloaded : Manifest.ofFile files (Path.join root (config.settings target).manifest) =
      .ok manifest)
    (hunlisted : ∃ platform ∈ (config.settings target).platforms, ¬ manifest.Lists platform)
    (hchecks : ¬ PassesOver root config request target files) :
    ∃ fault, targetEffect root config request now target files output =
      (.error fault, files, output) := by
  unfold targetEffect
  cases hprepare : prepare root config request now target files with
  | error fault => exact ⟨fault, rfl⟩
  | ok ready =>
    exfalso
    obtain ⟨loaded, hother, hlists⟩ := lists_of_prepare hprepare
    obtain rfl := Except.ok.inj (hloaded.symm.trans hother)
    obtain ⟨platform, hmem, hlacks⟩ := hunlisted
    -- what is chosen or the version is there to be given, or else the step passes over
    cases hchosen : ready.2 with
    | some chosen =>
      apply hlacks
      exact hlists (.inl (by rw [hchosen]; rfl)) platform hmem
    | none =>
      cases hversion : request.version? with
      | some version => exact hlacks (hlists (.inr (by rw [hversion]; rfl)) platform hmem)
      | none =>
        apply hchecks
        refine ⟨hversion, ?_⟩
        rw [← hchosen]
        exact choice_of_prepare hprepare

/-- A step that passes over the platforms is the same whatever they are. -/
theorem targetEffect_platforms (h : PassesOver root config request target files)
    (platforms : List String) :
    targetEffect root (config.withSettings target { config.settings target with platforms })
        request now target files output =
      targetEffect root config request now target files output := by
  -- only the platforms of the settings are others
  have hsettings : (config.withSettings target
      { config.settings target with platforms }).settings target =
        { config.settings target with platforms } := by
    rw [Config.settings_withSettings, if_pos rfl]
  unfold targetEffect prepare
  simp only [hsettings, h.unsigned, ok_bind, Option.map_none,
    editManifest_platforms h.unversioned]

/-- The step of a target whose manifest lacks a platform, as a run. -/
theorem exec_announceTarget_unlisted {manifest : Manifest}
    (hloaded : Manifest.ofFile session.files (Path.join root (config.settings target).manifest) =
      .ok manifest)
    (hunlisted : ∃ platform ∈ (config.settings target).platforms, ¬ manifest.Lists platform)
    (hchecks : ¬ PassesOver root config request target session.files) :
    ∃ fault after, exec (announceTarget root config request now target) session =
        (.error fault, after)
      ∧ Session.SameState after session := by
  obtain ⟨events, hexec⟩ := exec_announceTarget root config request now target session
  obtain ⟨fault, heffect⟩ := targetEffect_of_unlisted hloaded hunlisted hchecks
  rw [heffect] at hexec
  exact ⟨fault, _, hexec, rfl, rfl⟩

/-- A step that passes over the platforms, as a run. -/
theorem exec_announceTarget_platforms (h : PassesOver root config request target session.files)
    (platforms : List String) :
    Alongside Session.SameState
      (exec (announceTarget root
        (config.withSettings target { config.settings target with platforms }) request now target)
        session)
      (exec (announceTarget root config request now target) session) := by
  -- both steps are read off their effects, which are the same
  obtain ⟨hresult, hfiles, houtput⟩ := exec_announceTarget_eq root
    (config.withSettings target { config.settings target with platforms }) request now target
    session
  obtain ⟨hresult', hfiles', houtput'⟩ :=
    exec_announceTarget_eq root config request now target session
  rw [targetEffect_platforms h] at hresult hfiles houtput
  exact ⟨hresult.trans hresult'.symm, hfiles.trans hfiles'.symm, houtput.trans houtput'.symm⟩

/-- A run over targets that succeeds has made such a step for each of them. -/
theorem listingSteps_of_exec {targets : List Target} {entries : List Entry}
    (h : exec (targets.mapM (announceTarget root config request now)) session =
      (.ok entries, after)) :
    entries.map Entry.target = targets
      ∧ Steps (ListingStep root config request now) entries session after := by
  have hkey : ∀ target before after entry,
      exec (announceTarget root config request now target) before = (.ok entry, after) →
        entry.target = target := fun _ _ _ _ => target_of_exec
  have hstep : ∀ entry before after,
      exec (announceTarget root config request now entry.target) before = (.ok entry, after) →
        ListingStep root config request now entry before after :=
    fun _ _ _ => listingStep_of_exec
  -- the entries tell their targets, so the steps can be followed along them
  obtain ⟨htargets, hsteps⟩ := steps_of_results hkey h
  exact ⟨htargets, hsteps.map id hstep⟩

end

/-! ## §4 Announcements -/

/-- In an announcement that succeeds, each manifest to whose platforms something was given lists all
platforms of its target.  At a manifest that lacks one of them the announcement stops, with what the
targets before have done; unless its step passes over the platforms, which then make no difference
to it. -/
theorem announce_listing (root : String) (config : Config) (request : Request) (now : Instant)
    (session : Session) :
    (∀ report after, exec (announce root config request now) session = (.ok report, after) →
      report.targets.map Entry.target = request.selector.targets
        ∧ ∃ updated, Steps (ListingStep root config request now) report.targets session updated
          ∧ exec (announceVersion root config request) updated =
            (.ok report.versionFiles, after))
    ∧ (∀ done later target entries between manifest,
      request.selector.targets = done ++ target :: later →
      exec (done.mapM (announceTarget root config request now)) session = (.ok entries, between) →
      Manifest.ofFile between.files (Path.join root (config.settings target).manifest) =
        .ok manifest →
      (∃ platform ∈ (config.settings target).platforms, ¬ manifest.Lists platform) →
      ¬ PassesOver root config request target between.files →
      (∃ fault, (exec (announce root config request now) session).1 = .error fault)
        ∧ Session.SameState (exec (announce root config request now) session).2 between)
    ∧ ∀ target platforms between, PassesOver root config request target between.files →
      Alongside Session.SameState
        (exec (announceTarget root
          (config.withSettings target { config.settings target with platforms }) request now
          target) between)
        (exec (announceTarget root config request now target) between) := by
  refine ⟨?_, ?_, ?_⟩
  · -- the targets come first, each with a step of its own, and then the version
    intro report after h
    obtain ⟨entries, updated, htargets, h⟩ := exec_bind_eq_ok h
    obtain ⟨paths, last, hversion, h⟩ := exec_bind_eq_ok h
    obtain ⟨rfl, rfl⟩ : Report.mk entries paths = report ∧ last = after := by simpa using h
    obtain ⟨hselected, hsteps⟩ := listingSteps_of_exec htargets
    exact ⟨hselected, updated, hsteps, hversion⟩
  · intro done later target entries between manifest horder hdone hloaded hunlisted hchecks
    -- the step fails, and with it the run over the targets and the announcement
    obtain ⟨fault, after, hfailed, hsame⟩ :=
      exec_announceTarget_unlisted hloaded hunlisted hchecks
    have htargets := exec_mapM_error later hdone hfailed
    rw [exec_announce, horder, htargets]
    exact ⟨⟨fault, rfl⟩, hsame⟩
  · intro target platforms between hpasses
    exact exec_announceTarget_platforms hpasses platforms

/-- A version for every target, with missing signatures passed over. -/
def numberedRequest : Request := { datedRequest with version? := some "2.0" }

/-- The manifest of the small project lists both platforms.  One that lists none stops a release
with a version, but not a release that only sets the date, whose steps pass over the platforms. -/
theorem announce_listing_sample :
    let bare : Session := ⟨bareFiles, ⟨none, []⟩, []⟩
    let numbered := exec (announce "." sampleConfig numberedRequest ⟨0, 0⟩) bare
    (∃ manifest, Manifest.ofFile sampleFiles "./feed.json" = .ok manifest
        ∧ ∀ platform ∈ ["a", "b"], manifest.Lists platform)
      ∧ (∃ manifest, Manifest.ofFile bareFiles "./feed.json" = .ok manifest
        ∧ ¬ manifest.Lists "a")
      ∧ (∃ fault, numbered.1 = .error fault) ∧ Session.SameState numbered.2 bare
      ∧ PassesOver "." sampleConfig datedRequest .darwin bareFiles
      ∧ (exec (announce "." sampleConfig datedRequest ⟨0, 0⟩) bare).1 =
        .ok ⟨[⟨.darwin, "feed.json", none⟩, ⟨.linux, "feed.json", none⟩,
          ⟨.windows, "feed.json", none⟩], []⟩ := by
  intro bare numbered
  have hsigned : (exec (announce "." sampleConfig sampleRequest ⟨0, 0⟩) sampleSession).1 =
      .ok ⟨[⟨.linux, "feed.json", some "./app1.sig"⟩], ["package.json", "conf.json"]⟩ := by
    decide +kernel
  have hdated : (exec (announce "." sampleConfig datedRequest ⟨0, 0⟩) bare).1 =
      .ok ⟨[⟨.darwin, "feed.json", none⟩, ⟨.linux, "feed.json", none⟩,
        ⟨.windows, "feed.json", none⟩], []⟩ := by
    decide +kernel
  have hbare : ∃ manifest, Manifest.ofFile bareFiles "./feed.json" = .ok manifest
      ∧ ¬ manifest.Lists "a" := by
    have hany : ((Manifest.ofFile bareFiles "./feed.json").toOption.any fun manifest =>
        !decide (manifest.Lists "a")) = true := by
      decide +kernel
    cases hloaded : Manifest.ofFile bareFiles "./feed.json" with
    | ok manifest => exact ⟨manifest, rfl, by simpa [hloaded, Except.toOption] using hany⟩
    | error fault => simp [hloaded, Except.toOption] at hany
  refine ⟨?_, hbare, ?_⟩
  · -- the only step of the announcement has loaded the manifest
    obtain ⟨-, updated, hsteps, -⟩ :=
      (announce_listing "." sampleConfig sampleRequest ⟨0, 0⟩ sampleSession).1 _ _
        (Prod.ext hsigned rfl)
    cases hsteps with
    | cons hstep _ =>
      obtain ⟨-, manifest, hloaded, hlists⟩ := hstep
      exact ⟨manifest, hloaded, hlists (.inl rfl)⟩
  · obtain ⟨manifest, hloaded, hlacks⟩ := hbare
    obtain ⟨hfault, hsame⟩ :=
      (announce_listing "." sampleConfig numberedRequest ⟨0, 0⟩ bare).2.1 [] [.linux, .windows]
        .darwin [] bare manifest rfl rfl hloaded ⟨"a", by decide, hlacks⟩
        fun hpasses => by cases hpasses.unversioned
    exact ⟨hfault, hsame, ⟨rfl, by decide +kernel⟩, hdated⟩

end Announcement

end UpdateFeed
