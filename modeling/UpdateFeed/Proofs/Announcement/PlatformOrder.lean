import UpdateFeed.Proofs.Announcement.Chain
import UpdateFeed.Proofs.Announcement.Redating
import UpdateFeed.Proofs.Manifest

/-!
# The order of platforms

The platforms of a target are edited one after the other in one manifest.  Each edit stays within
the object of its platform, so edits of different platforms can be interchanged, also when they
bring in new members; and the edits of one platform, made again, change nothing.  So it does not
matter in which order the platforms are listed, nor how often.

- `interchange_editPlatform`: the edits of two platforms.
- `editManifest_of_same_platforms`: the edits of a release.
- `announceTarget_of_same_platforms`: the step of a target.
-/

namespace UpdateFeed

/-! ## §1 Edits of two platforms -/

namespace Manifest

variable {manifest changed : Manifest} {platform other field text : String}

/-- An edit of a platform is one of the value of the manifest. -/
theorem withPlatformMember_eq_ok_iff_root :
    manifest.withPlatformMember platform field text = .ok changed ↔
      ∃ root, manifest.document.root.putString field text ["platforms", platform] = .ok root
        ∧ changed = ⟨{ manifest.document with root }⟩ := by
  rw [withPlatformMember_eq_ok_iff, Document.putString_eq_ok_iff]
  obtain ⟨document⟩ := changed
  simp

/-- Two edits of platforms are two of the value of the manifest. -/
theorem withPlatformMember_bind_eq_ok_iff {field' text' : String} :
    (manifest.withPlatformMember platform field text >>=
        (·.withPlatformMember other field' text')) = .ok changed ↔
      ∃ root, (manifest.document.root.putString field text ["platforms", platform] >>=
          Json.putString field' text' ["platforms", other]) = .ok root
        ∧ changed = ⟨{ manifest.document with root }⟩ := by
  simp only [bind_eq_ok_iff, withPlatformMember_eq_ok_iff_root]
  constructor
  · rintro ⟨_, ⟨between, hbetween, rfl⟩, root, hroot, rfl⟩
    exact ⟨root, ⟨between, hbetween, hroot⟩, rfl⟩
  · rintro ⟨root, ⟨between, hbetween, hroot⟩, rfl⟩
    exact ⟨_, ⟨between, hbetween, rfl⟩, root, hroot, rfl⟩

/-- Edits of different platforms can be made in either order. -/
theorem interchange_withPlatformMember (h : platform ≠ other) (field text field' text' : String) :
    Interchange (withPlatformMember · platform field text)
      (withPlatformMember · other field' text') := by
  -- the objects of two platforms are beside one another
  have hbelow : ¬ ["platforms", platform] <+: ["platforms", other] := by simpa using h
  have habove : ¬ ["platforms", other] <+: ["platforms", platform] := by simpa using Ne.symm h
  intro before after
  rw [withPlatformMember_bind_eq_ok_iff, withPlatformMember_bind_eq_ok_iff]
  simp only [Json.interchange_putString hbelow habove field text field' text'
    before.document.root _]

end Manifest

namespace Announcement

open Run

variable {settings : TargetSettings} {request : Request} {now : Instant}
  {signature? url? value? : Option String} {before after : Manifest} {platform other : String}
  {platforms others : List String}

theorem interchange_applyIfGiven {edit : Manifest → String → Except ManifestFault Manifest}
    {step : Manifest → Except ManifestFault Manifest}
    (h : ∀ value, Interchange (edit · value) step) :
    Interchange (applyIfGiven value? edit) step := by
  cases value? with
  | none => exact interchange_ok step
  | some value => exact h value

/-- The edits of a platform can be interchanged with all steps that each of them can be interchanged
with. -/
theorem interchange_editPlatform_of_members {step : Manifest → Except ManifestFault Manifest}
    (h : ∀ field text, Interchange (Manifest.withPlatformMember · platform field text) step) :
    Interchange (editPlatform signature? url? · platform) step := by
  apply Interchange.bind
  · exact interchange_applyIfGiven fun text => h "signature" text
  · exact interchange_applyIfGiven fun text => h "url" text

/-- The edits of two platforms can be made in either order. -/
theorem interchange_editPlatform (signature? url? : Option String) (platform other : String) :
    Interchange (editPlatform signature? url? · platform)
      (editPlatform signature? url? · other) := by
  by_cases hsame : platform = other
  · subst hsame
    exact fun _ _ => Iff.rfl
  · -- any two members of the two platforms can be interchanged
    apply interchange_editPlatform_of_members
    intro field text
    apply Interchange.symm
    apply interchange_editPlatform_of_members
    intro field' text'
    exact Manifest.interchange_withPlatformMember (Ne.symm hsame) field' text' field text

/-- The edits of a platform that were made change nothing when they are made again. -/
theorem editPlatform_again (h : editPlatform signature? url? before platform = .ok after) :
    editPlatform signature? url? after platform = .ok after := by
  obtain ⟨root, rfl, hrewritten⟩ := edited_editPlatform h
  exact editPlatform_of_written hrewritten.written

/-! ## §2 Lists of the same platforms -/

/-- The edits of a release are the same for lists of the same platforms. -/
theorem editManifest_of_same_platforms (h : ∀ platform, platform ∈ platforms ↔ platform ∈ others)
    (settings : TargetSettings) (request : Request) (now : Instant) (signature? : Option String)
    (before after : Manifest) :
    editManifest { settings with platforms } request now signature? before = .ok after ↔
      editManifest { settings with platforms := others } request now signature? before =
        .ok after := by
  have hplatforms : ∀ listed,
      platforms.foldlM (editPlatform signature? (request.version?.map settings.downloadAddress))
          before = .ok listed ↔
        others.foldlM (editPlatform signature? (request.version?.map settings.downloadAddress))
          before = .ok listed := by
    intro listed
    apply foldlM_eq_ok_iff_of_mem_iff
    · exact interchange_editPlatform signature? _
    · intro platform before after
      exact editPlatform_again
    · exact h
  -- the edits behind those of the platforms do not read the list
  unfold editManifest
  dsimp only
  rw [bind_eq_ok_iff, bind_eq_ok_iff]
  exact exists_congr fun listed => and_congr (hplatforms listed) Iff.rfl

/-- The step of a target is the same for lists of the same platforms: it succeeds with one list if
it does with the other one, with the same entry and the same session behind it. -/
theorem announceTarget_of_same_platforms
    (h : ∀ platform, platform ∈ platforms ↔ platform ∈ others) (root : String) (config : Config)
    (request : Request) (now : Instant) (target : Target) (session after : Session)
    (entry : Entry) :
    exec (announceTarget root
        (config.withSettings target { config.settings target with platforms }) request now target)
        session = (.ok entry, after) ↔
      exec (announceTarget root
        (config.withSettings target { config.settings target with platforms := others }) request
        now target) session = (.ok entry, after) := by
  have hedits := editManifest_of_same_platforms h (config.settings target) request now
  -- around the edits both steps are the same
  unfold announceTarget
  dsimp only
  simp only [Config.settings_withSettings, if_true]
  simp only [exec_bind_eq_ok_iff, exec_lift, Prod.mk.injEq, mapError_eq_ok, hedits]

theorem announceTarget_of_same_platforms_sample :
    let listing (platforms : List String) : Config :=
      sampleConfig.withSettings .linux { sampleConfig.settings .linux with platforms }
    (∀ platform, platform ∈ ["a", "b"] ↔ platform ∈ ["b", "a", "b"])
      ∧ ∃ after, exec (announceTarget "." (listing ["a", "b"]) sampleRequest ⟨0, 0⟩ .linux)
          sampleSession = (.ok ⟨.linux, "feed.json", some "./app1.sig"⟩, after)
        ∧ exec (announceTarget "." (listing ["b", "a", "b"]) sampleRequest ⟨0, 0⟩ .linux)
          sampleSession = (.ok ⟨.linux, "feed.json", some "./app1.sig"⟩, after) := by
  have hsame : ∀ platform, platform ∈ ["a", "b"] ↔ platform ∈ ["b", "a", "b"] := by
    intro platform
    simp only [List.mem_cons, List.not_mem_nil, or_false]
    tauto
  have hresult : (exec (announceTarget "." (sampleConfig.withSettings .linux
      { sampleConfig.settings .linux with platforms := ["a", "b"] }) sampleRequest ⟨0, 0⟩ .linux)
      sampleSession).1 = .ok ⟨.linux, "feed.json", some "./app1.sig"⟩ := by
    decide +kernel
  exact ⟨hsame, _, Prod.ext hresult rfl, (announceTarget_of_same_platforms hsame "." sampleConfig
    sampleRequest ⟨0, 0⟩ .linux sampleSession _ _).mp (Prod.ext hresult rfl)⟩

end Announcement

end UpdateFeed
