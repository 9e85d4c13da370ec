import UpdateFeed.Proofs.Announcement.DryRun
import UpdateFeed.Proofs.Reloading

/-!
# The edits of a release, made again

A release that is announced again finds its own strings in the manifest.  Making the edits once more
then changes nothing but the publication date, and that only if the time is another one.

- `editManifest_later`: the edits at another time.
- `editManifest_again`: the edits of a manifest that has been edited before.
- `formed_editManifest`: edits keep the form of a manifest.
-/

namespace UpdateFeed

/-! ## §1 Another date -/

namespace Manifest

/-- A manifest with another publication date. -/
def dated (manifest : Manifest) (now : Instant) : Manifest :=
  match manifest.document.root with
  | .object members =>
    ⟨{ manifest.document with
        root := .object (Json.assign "pub_date" (.string now.timestamp) members) }⟩
  | _ => manifest

variable {manifest changed : Manifest} {field text platform : String}

/-- The member of a manifest can be set when the manifest is an object. -/
theorem withMember_eq_ok_iff : manifest.withMember field text = .ok changed ↔
    ∃ members, manifest.document.root = .object members
      ∧ changed = ⟨{ manifest.document with
          root := .object (Json.assign field (.string text) members) }⟩ := by
  unfold withMember Document.putString
  cases manifest.document.root with
  | object members => simp [Json.putString, eq_comm]
  | _ => simp [Json.putString]

theorem withMember_of_valueAt
    (h : manifest.document.root.valueAt [field] = some (.string text)) :
    manifest.withMember field text = .ok manifest := by
  have hsame : manifest.document.root.putString field text [] = .ok manifest.document.root :=
    Json.putString_of_valueAt h
  unfold withMember Document.putString
  rw [hsame]

theorem withPlatformMember_of_valueAt
    (h : manifest.document.root.valueAt ["platforms", platform, field] = some (.string text)) :
    manifest.withPlatformMember platform field text = .ok manifest := by
  have hsame : manifest.document.root.putString field text ["platforms", platform] =
      .ok manifest.document.root := Json.putString_of_valueAt h
  unfold withPlatformMember Document.putString
  rw [hsame]

/-- A manifest that was given its date can be given another one, before that or behind it. -/
theorem withDate_later {now : Instant} (h : manifest.withDate now = .ok changed)
    (later : Instant) :
    manifest.withDate later = .ok (changed.dated later)
      ∧ changed.withDate later = .ok (changed.dated later) := by
  obtain ⟨members, hroot, rfl⟩ := withMember_eq_ok_iff.mp h
  constructor
  · -- a second string at a key is all that counts
    refine withMember_eq_ok_iff.mpr ⟨members, hroot, ?_⟩
    rw [dated]
    dsimp only
    rw [Json.assign_assign]
  · exact withMember_eq_ok_iff.mpr ⟨_, rfl, rfl⟩

end Manifest

namespace Announcement

variable {settings : TargetSettings} {request : Request} {now : Instant}
  {signature? url? value? : Option String} {before after manifest : Manifest}

/-- The edits of a release at another time give the same manifest with another date. -/
theorem editManifest_later
    (h : editManifest settings request now signature? before = .ok after) (later : Instant) :
    editManifest settings request later signature? before = .ok (after.dated later) := by
  -- the date is the last edit, and the others do not read the time
  obtain ⟨listed, hlisted, h⟩ := exists_of_bind_eq_ok h
  obtain ⟨numbered, hnumbered, h⟩ := exists_of_bind_eq_ok h
  obtain ⟨noted, hnoted, hdated⟩ := exists_of_bind_eq_ok h
  unfold editManifest
  dsimp only
  rw [hlisted, ok_bind, hnumbered, ok_bind, hnoted, ok_bind]
  exact (Manifest.withDate_later hdated later).1

/-- A manifest that was edited has the date of its edits. -/
theorem dated_of_editManifest
    (h : editManifest settings request now signature? before = .ok after) :
    after.dated now = after :=
  Except.ok.inj ((editManifest_later h now).symm.trans h)

/-! ## §2 Edits of what was edited -/

theorem applyIfGiven_of_same {edit : Manifest → String → Except ManifestFault Manifest}
    (h : ∀ value, value? = some value → edit manifest value = .ok manifest) :
    applyIfGiven value? edit manifest = .ok manifest := by
  cases value? with
  | none => rfl
  | some value => exact h value rfl

/-- A platform that has its strings is not changed by its edits. -/
theorem editPlatform_of_written {platform : String}
    (h : ∀ address text, (address, text) ∈ platformTexts signature? url? platform →
      manifest.document.root.valueAt address = some (.string text)) :
    editPlatform signature? url? manifest platform = .ok manifest := by
  have hsignature :
      applyIfGiven signature? (·.withSignature platform ·) manifest = .ok manifest :=
    applyIfGiven_of_same fun text htext => Manifest.withPlatformMember_of_valueAt
      (h _ text (mem_platformTexts.mpr (.inl ⟨rfl, htext⟩)))
  have haddress : applyIfGiven url? (·.withAddress platform ·) manifest = .ok manifest :=
    applyIfGiven_of_same fun text htext => Manifest.withPlatformMember_of_valueAt
      (h _ text (mem_platformTexts.mpr (.inr ⟨rfl, htext⟩)))
  unfold editPlatform
  rw [hsignature, ok_bind, haddress]

theorem editPlatforms_of_written {platforms : List String}
    (h : ∀ address text, (address, text) ∈ platforms.flatMap (platformTexts signature? url?) →
      manifest.document.root.valueAt address = some (.string text)) :
    platforms.foldlM (editPlatform signature? url?) manifest = .ok manifest := by
  induction platforms with
  | nil => rfl
  | cons platform platforms ih =>
    rw [List.flatMap_cons] at h
    rw [List.foldlM_cons, editPlatform_of_written fun address text hmem =>
      h address text (List.mem_append_left _ hmem), ok_bind]
    exact ih fun address text hmem => h address text (List.mem_append_right _ hmem)

/-- The edits of a release, made on the manifest that they have given, change its date only. -/
theorem editManifest_again
    (h : editManifest settings request now signature? before = .ok after) (later : Instant) :
    editManifest settings request later signature? after = .ok (after.dated later) := by
  obtain ⟨root, rfl, hrewritten⟩ := edited_editManifest h
  have hwritten := hrewritten.written
  unfold releaseTexts at hwritten
  -- every string of the release is there, so only the date is left to be set
  have hplatforms : settings.platforms.foldlM
      (editPlatform signature? (request.version?.map settings.downloadAddress))
        (⟨{ before.document with root }⟩ : Manifest) = .ok ⟨{ before.document with root }⟩ :=
    editPlatforms_of_written fun address text hmem => hwritten address text (by simp [hmem])
  have hversion : applyIfGiven request.version? Manifest.withVersion
      (⟨{ before.document with root }⟩ : Manifest) = .ok ⟨{ before.document with root }⟩ :=
    applyIfGiven_of_same fun text htext =>
      Manifest.withMember_of_valueAt (hwritten ["version"] ("v" ++ text) (by simp [htext]))
  have hnotes : applyIfGiven request.notes? Manifest.withNotes
      (⟨{ before.document with root }⟩ : Manifest) = .ok ⟨{ before.document with root }⟩ :=
    applyIfGiven_of_same fun text htext =>
      Manifest.withMember_of_valueAt (hwritten ["notes"] text (by simp [htext]))
  -- the first run has come as far as its date, so the date can be set
  obtain ⟨_, _, h⟩ := exists_of_bind_eq_ok h
  obtain ⟨_, _, h⟩ := exists_of_bind_eq_ok h
  obtain ⟨_, _, hdated⟩ := exists_of_bind_eq_ok h
  unfold editManifest
  dsimp only
  rw [hplatforms, ok_bind, hversion, ok_bind, hnotes, ok_bind]
  exact (Manifest.withDate_later hdated later).2

/-! ## §3 What edits keep -/

section

variable {keeps : Manifest → Prop}

theorem keeps_applyIfGiven {edit : Manifest → String → Except ManifestFault Manifest}
    (hedit : ∀ value changed, edit before value = .ok changed → keeps changed)
    (h : keeps before) (hok : applyIfGiven value? edit before = .ok after) : keeps after := by
  cases value? with
  | none =>
    obtain rfl := Except.ok.inj hok
    exact h
  | some value => exact hedit value after hok

variable (hput : ∀ manifest document keys leaf text, keeps manifest →
  manifest.document.putString keys leaf text = .ok document → keeps ⟨document⟩)
include hput

theorem keeps_withMember {field text : String} (h : keeps before)
    (hok : before.withMember field text = .ok after) : keeps after := by
  unfold Manifest.withMember at hok
  split at hok
  · rename_i document hdocument
    obtain rfl := Except.ok.inj hok
    exact hput _ _ _ _ _ h hdocument
  · cases hok

theorem keeps_withPlatformMember {platform field text : String} (h : keeps before)
    (hok : before.withPlatformMember platform field text = .ok after) : keeps after := by
  unfold Manifest.withPlatformMember at hok
  split at hok
  · rename_i document hdocument
    obtain rfl := Except.ok.inj hok
    exact hput _ _ _ _ _ h hdocument
  · cases hok
  · cases hok

theorem keeps_editPlatform {platform : String} (h : keeps before)
    (hok : editPlatform signature? url? before platform = .ok after) : keeps after := by
  obtain ⟨signed, hsigned, haddressed⟩ := exists_of_bind_eq_ok hok
  have hfirst : keeps signed :=
    keeps_applyIfGiven (fun _ _ => keeps_withPlatformMember hput h) h hsigned
  exact keeps_applyIfGiven (fun _ _ => keeps_withPlatformMember hput hfirst) hfirst haddressed

variable (keeps) in
/-- What every string edit keeps, the edits of a release keep. -/
theorem keeps_editManifest (h : keeps before)
    (hok : editManifest settings request now signature? before = .ok after) : keeps after := by
  -- the edits in their order: the platforms, the version, the notes and the date
  obtain ⟨listed, hlisted, hok⟩ := exists_of_bind_eq_ok hok
  obtain ⟨numbered, hnumbered, hok⟩ := exists_of_bind_eq_ok hok
  obtain ⟨noted, hnoted, hdated⟩ := exists_of_bind_eq_ok hok
  have hplatforms : keeps listed :=
    foldlM_invariant (fun _ _ _ => keeps_editPlatform hput) h hlisted
  have hversion : keeps numbered :=
    keeps_applyIfGiven (fun _ _ => keeps_withMember hput hplatforms) hplatforms hnumbered
  have hnotes : keeps noted :=
    keeps_applyIfGiven (fun _ _ => keeps_withMember hput hversion) hversion hnoted
  exact keeps_withMember hput hnotes hdated

end

/-- The edits of a release keep the form of a manifest. -/
theorem formed_editManifest {holds : Json.Number → Prop} {depth : Nat}
    (h : Json.Formed holds depth before.document.root)
    (hok : editManifest settings request now signature? before = .ok after) :
    Json.Formed holds depth after.document.root := by
  refine keeps_editManifest (fun manifest => Json.Formed holds depth manifest.document.root) ?_ h
    hok
  intro manifest document keys leaf text hformed hdocument
  obtain ⟨root, hroot, rfl⟩ := Document.putString_eq_ok_iff.mp hdocument
  exact Json.formed_putString hformed hroot

end Announcement

end UpdateFeed
