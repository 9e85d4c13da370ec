import UpdateFeed.Announcement
import UpdateFeed.Proofs.Execution
import UpdateFeed.Proofs.Json.Rewriting

/-!
# The edits of a release

`releaseTexts` lists the members of a manifest that a release gives new strings, with their strings.
It says nothing of the order in which they are edited, nor of the edits themselves.

- `Manifest.Edited`: a manifest before and after edits differ in the rewritten members only.
- `edited_editManifest`: the manifest of a release has exactly its members rewritten.
-/

namespace UpdateFeed

/-! ## §1 Edited manifests -/

namespace Manifest

/-- What a manifest is after the addresses in `texts` were given their strings. -/
def Edited (texts : Json.Texts) (before after : Manifest) : Prop :=
  ∃ root, after = ⟨{ before.document with root }⟩
    ∧ Json.Rewritten texts before.document.root root

theorem Edited.refl (manifest : Manifest) : Edited [] manifest manifest :=
  ⟨manifest.document.root, rfl, Json.Rewritten.refl _⟩

theorem Edited.trans {first second : Json.Texts} {before between after : Manifest}
    (h₁ : Edited first before between) (h₂ : Edited second between after)
    (agree : Json.Agree first second) : Edited (first ++ second) before after := by
  obtain ⟨root, rfl, hroot⟩ := h₁
  obtain ⟨root', rfl, hroot'⟩ := h₂
  exact ⟨root', rfl, hroot.trans hroot' agree⟩

theorem edited_of_putString {before : Manifest} {document : Document} {keys : List String}
    {leaf text : String} (h : before.document.putString keys leaf text = .ok document) :
    Edited [(keys ++ [leaf], text)] before ⟨document⟩ := by
  obtain ⟨root, hroot, rfl⟩ := Document.putString_eq_ok_iff.mp h
  exact ⟨root, rfl, Json.rewritten_putString hroot⟩

theorem edited_withMember {before after : Manifest} {field text : String}
    (h : before.withMember field text = .ok after) : Edited [([field], text)] before after := by
  unfold withMember at h
  split at h
  · rename_i document hput
    obtain rfl : Manifest.mk document = after := by simpa using h
    exact edited_of_putString hput
  · simp at h

theorem edited_withPlatformMember {before after : Manifest} {platform field text : String}
    (h : before.withPlatformMember platform field text = .ok after) :
    Edited [(["platforms", platform, field], text)] before after := by
  unfold withPlatformMember at h
  split at h
  · rename_i document hput
    obtain rfl : Manifest.mk document = after := by simpa using h
    exact edited_of_putString hput
  · simp at h
  · simp at h

end Manifest

namespace Announcement

/-! ## §2 The members of a release -/

/-- The members of a platform that a release rewrites. -/
def platformTexts (signature? url? : Option String) (platform : String) : Json.Texts :=
  signature?.toList.map (["platforms", platform, "signature"], ·)
    ++ url?.toList.map (["platforms", platform, "url"], ·)

/-- The members of a manifest that a release rewrites: for each platform of the target the
signature if there is one and the address if there is a version; the version with `v` in front and
the notes if they are given; and the publication date always. -/
def releaseTexts (settings : TargetSettings) (request : Request) (now : Instant)
    (signature? : Option String) : Json.Texts :=
  settings.platforms.flatMap
      (platformTexts signature? (request.version?.map settings.downloadAddress))
    ++ request.version?.toList.map (["version"], "v" ++ ·)
    ++ request.notes?.toList.map (["notes"], ·)
    ++ [(["pub_date"], now.timestamp)]

/-- The members of a platform. -/
theorem mem_platformTexts {signature? url? : Option String} {platform : String}
    {address : List String} {text : String} :
    (address, text) ∈ platformTexts signature? url? platform ↔
      address = ["platforms", platform, "signature"] ∧ signature? = some text
        ∨ address = ["platforms", platform, "url"] ∧ url? = some text := by
  simp only [platformTexts, List.mem_append, List.mem_map, Option.mem_toList, Prod.mk.injEq]
  constructor
  · rintro (⟨_, h, rfl, rfl⟩ | ⟨_, h, rfl, rfl⟩)
    · exact .inl ⟨rfl, h⟩
    · exact .inr ⟨rfl, h⟩
  · rintro (⟨rfl, h⟩ | ⟨rfl, h⟩)
    · exact .inl ⟨text, h, rfl, rfl⟩
    · exact .inr ⟨text, h, rfl, rfl⟩

/-- Two platforms share a member only when they are the same, and then its string too. -/
private theorem agree_platformTexts (signature? url? : Option String) (first second : String) :
    Json.Agree (platformTexts signature? url? first) (platformTexts signature? url? second) := by
  intro place text other text' hplace hother hcut
  -- a signature and an address never share a member; two of one kind do for one platform only
  rcases mem_platformTexts.mp hplace with ⟨rfl, h⟩ | ⟨rfl, h⟩ <;>
    rcases mem_platformTexts.mp hother with ⟨rfl, h'⟩ | ⟨rfl, h'⟩
  · obtain rfl : first = second := by simpa [eq_comm] using hcut
    exact ⟨rfl, Option.some.inj (h.symm.trans h')⟩
  · simp at hcut
  · simp at hcut
  · obtain rfl : first = second := by simpa [eq_comm] using hcut
    exact ⟨rfl, Option.some.inj (h.symm.trans h')⟩

/-- Whether all addresses of some texts begin with one of the given keys. -/
private def Headed (keys : List String) (texts : Json.Texts) : Prop :=
  ∀ place text, (place, text) ∈ texts → ∃ key ∈ keys, ∃ rest, place = key :: rest

private theorem headed_platformTexts (signature? url? : Option String)
    (platforms : List String) :
    Headed ["platforms"] (platforms.flatMap (platformTexts signature? url?)) := by
  intro place text hmem
  obtain ⟨platform, _, hmem⟩ := List.mem_flatMap.mp hmem
  rcases mem_platformTexts.mp hmem with ⟨rfl, _⟩ | ⟨rfl, _⟩
  · exact ⟨_, by simp, _, rfl⟩
  · exact ⟨_, by simp, _, rfl⟩

private theorem headed_member (field : String) (value? : Option String)
    (wording : String → String) :
    Headed [field] (value?.toList.map fun value => ([field], wording value)) := by
  intro place text hmem
  obtain ⟨_, _, hmem⟩ := List.mem_map.mp hmem
  cases hmem
  exact ⟨field, by simp, [], rfl⟩

private theorem Headed.append {keys others : List String} {first second : Json.Texts}
    (h₁ : Headed keys first) (h₂ : Headed others second) :
    Headed (keys ++ others) (first ++ second) := by
  intro place text hmem
  rcases List.mem_append.mp hmem with hmem | hmem
  · obtain ⟨key, hkey, rest⟩ := h₁ place text hmem
    exact ⟨key, List.mem_append_left _ hkey, rest⟩
  · obtain ⟨key, hkey, rest⟩ := h₂ place text hmem
    exact ⟨key, List.mem_append_right _ hkey, rest⟩

/-- Addresses that begin with other keys do not lead to each other. -/
private theorem Headed.agree {keys others : List String} {first second : Json.Texts}
    (h₁ : Headed keys first) (h₂ : Headed others second) (hne : ∀ key ∈ keys, key ∉ others) :
    Json.Agree first second := by
  intro place text other text' hplace hother hcut
  obtain ⟨key, hkey, rest, rfl⟩ := h₁ _ _ hplace
  obtain ⟨key', hkey', rest', rfl⟩ := h₂ _ _ hother
  -- if one leads to the other, both begin with the same key
  have heq : key = key' := by
    rcases hcut with hcut | hcut
    · exact (List.cons_prefix_cons.mp hcut).1
    · exact (List.cons_prefix_cons.mp hcut).1.symm
  exact absurd (heq ▸ hkey') (hne key hkey)

/-! ## §3 Following the edits -/

theorem edited_applyIfGiven {value? : Option String} {place : List String}
    {wording : String → String}
    {edit : Manifest → String → Except ManifestFault Manifest} {before after : Manifest}
    (hedit : ∀ value, edit before value = .ok after →
      Manifest.Edited [(place, wording value)] before after)
    (h : applyIfGiven value? edit before = .ok after) :
    Manifest.Edited (value?.toList.map fun value => (place, wording value)) before after := by
  cases value? with
  | none =>
    obtain rfl : before = after := by simpa [applyIfGiven] using h
    exact Manifest.Edited.refl before
  | some value => exact hedit value h

/-- The edits of a platform rewrite its members. -/
theorem edited_editPlatform {signature? url? : Option String} {before after : Manifest}
    {platform : String} (h : editPlatform signature? url? before platform = .ok after) :
    Manifest.Edited (platformTexts signature? url? platform) before after := by
  obtain ⟨signed, hsigned, haddressed⟩ := exists_of_bind_eq_ok h
  have hfirst : Manifest.Edited
      (signature?.toList.map fun text => (["platforms", platform, "signature"], text))
      before signed :=
    edited_applyIfGiven (fun _ h => Manifest.edited_withPlatformMember h) hsigned
  have hsecond : Manifest.Edited
      (url?.toList.map fun text => (["platforms", platform, "url"], text)) signed after :=
    edited_applyIfGiven (fun _ h => Manifest.edited_withPlatformMember h) haddressed
  -- the two members of a platform have different names
  refine hfirst.trans hsecond ?_
  intro place text other text' hplace hother hcut
  obtain ⟨_, _, hplace⟩ := List.mem_map.mp hplace
  obtain ⟨_, _, hother⟩ := List.mem_map.mp hother
  cases hplace
  cases hother
  simp at hcut

/-- The edits of several platforms, one after the other, rewrite the members of each of them. -/
theorem edited_editPlatforms {signature? url? : Option String} {platforms : List String}
    {before after : Manifest}
    (h : platforms.foldlM (editPlatform signature? url?) before = .ok after) :
    Manifest.Edited (platforms.flatMap (platformTexts signature? url?)) before after := by
  induction platforms generalizing before with
  | nil =>
    obtain rfl : before = after := by simpa [pure, Except.pure] using h
    exact Manifest.Edited.refl before
  | cons platform platforms ih =>
    rw [List.foldlM_cons] at h
    obtain ⟨between, hfirst, hrest⟩ := exists_of_bind_eq_ok h
    -- a platform that is listed twice is given the same strings again
    refine (edited_editPlatform hfirst).trans (ih hrest) ?_
    intro place text other text' hplace hother hcut
    obtain ⟨second, _, hother⟩ := List.mem_flatMap.mp hother
    exact agree_platformTexts _ _ _ _ _ _ _ _ hplace hother hcut

/-- A manifest that is edited for a release has exactly the members of the release rewritten. -/
theorem edited_editManifest {settings : TargetSettings} {request : Request} {now : Instant}
    {signature? : Option String} {before after : Manifest}
    (h : editManifest settings request now signature? before = .ok after) :
    Manifest.Edited (releaseTexts settings request now signature?) before after := by
  -- the edits in their order: the platforms, the version, the notes and the date
  obtain ⟨listed, hlisted, h⟩ := exists_of_bind_eq_ok h
  obtain ⟨numbered, hnumbered, h⟩ := exists_of_bind_eq_ok h
  obtain ⟨noted, hnoted, hdated⟩ := exists_of_bind_eq_ok h
  have hplatforms := edited_editPlatforms hlisted
  have hversion : Manifest.Edited
      (request.version?.toList.map fun text => (["version"], "v" ++ text)) listed numbered :=
    edited_applyIfGiven (fun _ h => Manifest.edited_withMember h) hnumbered
  have hnotes : Manifest.Edited (request.notes?.toList.map fun text => (["notes"], text))
      numbered noted :=
    edited_applyIfGiven (fun _ h => Manifest.edited_withMember h) hnoted
  have hdate : Manifest.Edited [(["pub_date"], now.timestamp)] noted after :=
    Manifest.edited_withMember hdated
  -- their addresses begin with different keys, so no edit undoes another one
  have hkeys := headed_platformTexts signature? (request.version?.map settings.downloadAddress)
    settings.platforms
  have hversionKey := headed_member "version" request.version? ("v" ++ ·)
  have hnotesKey := headed_member "notes" request.notes? id
  have hdateKey := headed_member "pub_date" (some now.timestamp) id
  have hnumbered := hplatforms.trans hversion (hkeys.agree hversionKey (by decide))
  have hnoted := hnumbered.trans hnotes ((hkeys.append hversionKey).agree hnotesKey (by decide))
  exact hnoted.trans hdate
    (((hkeys.append hversionKey).append hnotesKey).agree hdateKey (by decide))

end Announcement

end UpdateFeed
