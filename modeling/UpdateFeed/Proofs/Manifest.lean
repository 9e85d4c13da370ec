import UpdateFeed.Manifest
import UpdateFeed.Proofs.Document.InPlace
import UpdateFeed.Proofs.Json.Descent

/-!
# Edits of platforms

An edit of a platform goes from the manifest to its member `platforms`, and from there to the
platform.  Each of the three has to be an object.  A platform that is missing is a fault of its own;
it is told from a missing `platforms` by the text of the place, which is another one at each step of
a way.

- `pointer_injective`: the places on a way have different texts.
- `setPlatformMember_eq`: the edit in its place, with the fault told by this text.
- `platform_edits`: when the edits of a platform succeed, and how they fail.
-/

namespace UpdateFeed

open Json

/-! ## §1 Texts of places -/

namespace Document

theorem pointer_append (keys more : List String) :
    pointer (keys ++ more) = pointer keys ++ pointer more := by
  simp [pointer]

theorem pointer_eq_empty_iff {keys : List String} : pointer keys = "" ↔ keys = [] := by
  cases keys with
  | nil => simp [pointer]
  | cons key keys =>
    have hslash : pointer (key :: keys) = "/" ++ (key ++ pointer keys) := by
      simp [pointer, String.append_assoc]
    rw [hslash]
    simp

/-- The places on a way have different texts. -/
theorem pointer_injective {keys place other : List String} (h : place <+: keys)
    (hother : other <+: keys) (heq : pointer place = pointer other) : place = other := by
  -- of two places on a way one is behind the other
  suffices hone : ∀ {first second : List String}, first <+: second →
      pointer first = pointer second → first = second by
    rcases List.prefix_or_prefix_of_prefix h hother with hprefix | hprefix
    · exact hone hprefix heq
    · exact (hone hprefix heq.symm).symm
  rintro first _ ⟨rest, rfl⟩ heq
  rw [pointer_append] at heq
  have hrest : pointer rest = "" := by
    simpa using heq.symm
  rw [pointer_eq_empty_iff.mp hrest, List.append_nil]

theorem pointer_platforms : pointer ["platforms"] = "/platforms" := by
  simp [pointer]

theorem pointer_platform (platform : String) :
    pointer ["platforms", platform] = "/platforms/" ++ platform := by
  have htext : "/platforms/" = "/platforms" ++ "/" := by
    simp
  rw [htext, String.append_assoc]
  simp [pointer]

/-- The root is shown as a slash. -/
theorem message_noObject_nil (path : String) :
    (DocumentFault.address path (.noObject [])).message =
      path ++ (": expected a JSON object at " ++ "/") := by
  rw [← String.append_assoc]
  rfl

theorem message_noObject {keys : List String} (h : keys ≠ []) (path : String) :
    (DocumentFault.address path (.noObject keys)).message =
      path ++ (": expected a JSON object at " ++ pointer keys) := by
  unfold DocumentFault.message
  simp only
  rw [if_neg (mt pointer_eq_empty_iff.mp h), String.append_assoc]

end Document

namespace Manifest

variable {manifest changed : Manifest} {platform field text : String} {fault : ManifestFault}

/-! ## §2 How edits of platforms fail -/

/-- Whether there is an object for a platform: the manifest is an object, its member `platforms` is
one, and so is the member of that for the platform. -/
def HasPlatform (manifest : Manifest) (platform : String) : Prop :=
  ∃ top platforms members, manifest.document.root = .object top
    ∧ lookup "platforms" top = some (.object platforms)
    ∧ lookup platform platforms = some (.object members)

/-- How an edit of a platform fails, and with which message. -/
inductive PlatformFault (manifest : Manifest) (platform : String) : ManifestFault → String → Prop
  /-- The manifest is not an object. -/
  | root (other : ¬ manifest.document.root.IsObject) :
      PlatformFault manifest platform
        (.document (.address manifest.document.path (.noObject [])))
        (manifest.document.path ++ ": expected a JSON object at /")
  /-- The manifest is an object without `platforms`. -/
  | noPlatforms {top : Members} (root : manifest.document.root = .object top)
      (missing : lookup "platforms" top = none) :
      PlatformFault manifest platform
        (.document (.address manifest.document.path (.noMember ["platforms"])))
        (manifest.document.path ++ ": missing key /platforms")
  /-- The member `platforms` is not an object. -/
  | platforms {top : Members} {value : Json} (root : manifest.document.root = .object top)
      (found : lookup "platforms" top = some value) (other : ¬ value.IsObject) :
      PlatformFault manifest platform
        (.document (.address manifest.document.path (.noObject ["platforms"])))
        (manifest.document.path ++ ": expected a JSON object at /platforms")
  /-- The member `platforms` is an object without the platform. -/
  | unlisted {top platforms : Members} (root : manifest.document.root = .object top)
      (found : lookup "platforms" top = some (.object platforms))
      (missing : lookup platform platforms = none) :
      PlatformFault manifest platform (.unlistedPlatform manifest.document.path platform)
        (manifest.document.path ++ ": platform " ++ platform
          ++ " is not listed under \"platforms\"")
  /-- The platform is there, but not as an object. -/
  | platform {top platforms : Members} {value : Json}
      (root : manifest.document.root = .object top)
      (found : lookup "platforms" top = some (.object platforms))
      (listed : lookup platform platforms = some value) (other : ¬ value.IsObject) :
      PlatformFault manifest platform
        (.document (.address manifest.document.path (.noObject ["platforms", platform])))
        (manifest.document.path ++ ": expected a JSON object at /platforms/" ++ platform)

theorem PlatformFault.message_eq {message : String}
    (h : PlatformFault manifest platform fault message) : fault.message = message := by
  cases h with
  | root =>
    rw [ManifestFault.message, Document.message_noObject_nil]
    simp
  | noPlatforms =>
    show _ ++ ": missing key " ++ Document.pointer ["platforms"] = _
    rw [Document.pointer_platforms, String.append_assoc]
    simp
  | platforms =>
    rw [ManifestFault.message, Document.message_noObject (by simp), Document.pointer_platforms]
    simp
  | unlisted => rfl
  | platform =>
    have htext : ": expected a JSON object at /platforms/" =
        ": expected a JSON object at " ++ "/platforms/" := by
      simp
    rw [ManifestFault.message, Document.message_noObject (by simp), Document.pointer_platform,
      htext]
    simp only [String.append_assoc]

/-! ## §3 Edits of platforms -/

/-- An edit of a platform that succeeds is one of the document. -/
theorem withPlatformMember_eq_ok_iff :
    manifest.withPlatformMember platform field text = .ok changed ↔
      manifest.document.putString ["platforms", platform] field text = .ok changed.document := by
  -- the faults of the two differ, but not when there is one
  unfold withPlatformMember
  split
  · rename_i document hput
    rw [hput, Except.ok.injEq, Except.ok.injEq]
    constructor
    · rintro rfl
      rfl
    · rintro rfl
      rfl
  · simp_all
  · simp_all

/-- An edit of a platform succeeds if there is an object for the platform. -/
theorem withPlatformMember_of_hasPlatform (h : manifest.HasPlatform platform)
    (field text : String) :
    ∃ changed, manifest.withPlatformMember platform field text = .ok changed := by
  obtain ⟨top, platforms, members, hroot, hplatforms, hplatform⟩ := h
  have hobject : manifest.document.root.valueAt ["platforms", platform] =
      some (.object members) := by
    simp [hroot, hplatforms, hplatform]
  have hput : manifest.document.putString ["platforms", platform] field text = .ok _ :=
    Document.putString_eq_ok_iff.mpr ⟨_, putString_of_object hobject field text, rfl⟩
  exact ⟨⟨_⟩, withPlatformMember_eq_ok_iff.mpr hput⟩

/-- The way to a platform ends with the fault of the platform, or with a fault before it. -/
theorem PlatformFault.exists_fault {message : String}
    (h : PlatformFault manifest platform fault message) :
    ∃ inner, manifest.document.root.objectAt ["platforms", platform] = .error inner
      ∧ (inner = .noMember ["platforms", platform]
            ∧ fault = .unlistedPlatform manifest.document.path platform
        ∨ (∀ keys, inner = .noMember keys → keys = ["platforms"])
            ∧ fault = .document (.address manifest.document.path inner)) := by
  cases h with
  | root other => exact ⟨_, objectAt_of_not_isObject other _, .inr ⟨by simp, rfl⟩⟩
  | noPlatforms root missing =>
    refine ⟨.noMember ["platforms"], ?_, .inr ⟨by simp, rfl⟩⟩
    rw [root, objectAt_of_lookup_eq_none missing]
  | platforms root found other =>
    refine ⟨.noObject ["platforms"], ?_, .inr ⟨by simp, rfl⟩⟩
    rw [root, objectAt_of_lookup found, objectAt_of_not_isObject other]
    rfl
  | unlisted root found missing =>
    refine ⟨.noMember ["platforms", platform], ?_, .inl ⟨rfl, rfl⟩⟩
    rw [root, objectAt_of_lookup found, objectAt_of_lookup_eq_none missing]
    rfl
  | platform root found listed other =>
    refine ⟨.noObject ["platforms", platform], ?_, .inr ⟨by simp, rfl⟩⟩
    rw [root, objectAt_of_lookup found, objectAt_of_lookup listed, objectAt_of_not_isObject other]
    rfl

/-- Each of the faults is that of the edit. -/
theorem PlatformFault.withPlatformMember {message : String}
    (h : PlatformFault manifest platform fault message) (field text : String) :
    manifest.withPlatformMember platform field text = .error fault := by
  unfold Manifest.withPlatformMember Document.putString
  rw [putString_eq]
  obtain ⟨inner, hinner, ⟨rfl, rfl⟩ | ⟨hplaces, rfl⟩⟩ := h.exists_fault
  · rw [hinner]
    rfl
  · rw [hinner]
    simp only [Except.map]
    split
    · rename_i heq
      cases heq
    · rename_i path first second heq
      -- a place with two keys is not the one of `platforms`
      obtain ⟨-, rfl⟩ := DocumentFault.address.inj (Except.error.inj heq)
      simpa using hplaces _ rfl
    · rename_i heq
      rw [Except.error.inj heq]

/-- There is an object for a platform, or an edit of the platform has one of the faults. -/
theorem hasPlatform_or_fault (manifest : Manifest) (platform : String) :
    manifest.HasPlatform platform
      ∨ ∃ fault message, PlatformFault manifest platform fault message := by
  -- the three values on the way, one after the other
  by_cases hroot : manifest.document.root.IsObject
  · obtain ⟨top, htop⟩ := hroot
    cases hfound : lookup "platforms" top with
    | none => exact .inr ⟨_, _, .noPlatforms htop hfound⟩
    | some value =>
      by_cases hplatforms : value.IsObject
      · obtain ⟨platforms, rfl⟩ := hplatforms
        cases hlisted : lookup platform platforms with
        | none => exact .inr ⟨_, _, .unlisted htop hfound hlisted⟩
        | some entry =>
          by_cases hentry : entry.IsObject
          · obtain ⟨members, rfl⟩ := hentry
            exact .inl ⟨top, platforms, members, htop, hfound, hlisted⟩
          · exact .inr ⟨_, _, .platform htop hfound hlisted hentry⟩
      · exact .inr ⟨_, _, .platforms htop hfound hplatforms⟩
  · exact .inr ⟨_, _, .root hroot⟩

/-- When an edit of a platform succeeds, and how it fails. -/
structure PlatformOutcome (manifest : Manifest) (platform : String)
    (edit : Except ManifestFault Manifest) : Prop where
  succeeds : (∃ changed, edit = .ok changed) ↔ manifest.HasPlatform platform
  fails : ∀ fault, edit = .error fault ↔ ∃ message, PlatformFault manifest platform fault message

theorem platformOutcome (manifest : Manifest) (platform field text : String) :
    PlatformOutcome manifest platform (manifest.withPlatformMember platform field text) where
  succeeds := by
    constructor
    · rintro ⟨changed, h⟩
      rcases hasPlatform_or_fault manifest platform with hplatform | ⟨fault, message, hfault⟩
      · exact hplatform
      · cases h.symm.trans (hfault.withPlatformMember field text)
    · intro hplatform
      exact withPlatformMember_of_hasPlatform hplatform field text
  fails fault := by
    constructor
    · intro h
      rcases hasPlatform_or_fault manifest platform with hplatform | ⟨other, message, hfault⟩
      · obtain ⟨changed, hedit⟩ := withPlatformMember_of_hasPlatform hplatform field text
        cases h.symm.trans hedit
      · obtain rfl := Except.error.inj ((hfault.withPlatformMember field text).symm.trans h)
        exact ⟨message, hfault⟩
    · rintro ⟨message, hfault⟩
      exact hfault.withPlatformMember field text

/-! ## §4 Edits in their place -/

/-- What a fault of a document is for an edit of a platform.  That it is the platform which is
missing is told by the text of the place. -/
def platformFault (platform : String) : DocumentFault → ManifestFault
  | .address path (.noMember keys) =>
    if Document.pointer keys = "/platforms/" ++ platform then .unlistedPlatform path platform
    else .document (.address path (.noMember keys))
  | fault => .document fault

/-- Sets a member of a platform in its place: the answer, and the manifest behind it. -/
def setPlatformMember (manifest : Manifest) (platform field text : String) :
    Except ManifestFault Unit × Manifest :=
  let call := manifest.document.setString ["platforms", platform] field text
  (call.1.mapError (platformFault platform), ⟨call.2⟩)

/-- An edit in its place answers what the edit gives.  Behind a failure the manifest is what it
was. -/
theorem setPlatformMember_eq (manifest : Manifest) (platform field text : String) :
    manifest.setPlatformMember platform field text =
      match manifest.withPlatformMember platform field text with
      | .ok changed => (.ok (), changed)
      | .error fault => (.error fault, manifest) := by
  rcases hasPlatform_or_fault manifest platform with hplatform | ⟨fault, message, hfault⟩
  · obtain ⟨changed, hedit⟩ := withPlatformMember_of_hasPlatform hplatform field text
    have hput := withPlatformMember_eq_ok_iff.mp hedit
    rw [hedit]
    unfold setPlatformMember
    rw [Document.setString_of_ok hput]
    rfl
  · rw [hfault.withPlatformMember field text]
    unfold setPlatformMember Document.setString
    obtain ⟨inner, hinner, ⟨rfl, rfl⟩ | ⟨hplaces, rfl⟩⟩ := hfault.exists_fault
    · rw [hinner]
      simp [platformFault, Except.mapError, Document.pointer_platform]
    · rw [hinner]
      simp only [Except.mapError]
      cases inner with
      | noObject => rfl
      | noMember keys =>
        -- the text of `platforms` is not that of the platform
        have hplace : Document.pointer ["platforms"] ≠ "/platforms/" ++ platform := by
          rw [← Document.pointer_platform]
          intro heq
          simpa using Document.pointer_injective (by simp) (List.prefix_refl _) heq
        obtain rfl := hplaces keys rfl
        simp [platformFault, hplace]

/-- An edit of a platform succeeds exactly when there is an object for the platform.  Otherwise its
fault is that of the first of the three values that is missing or no object, and the message shows
where that is.  In general the way to an object stops at the first step that cannot be made, whose
place has a text of its own on the way.  An edit in its place changes nothing when it fails. -/
theorem platform_edits (manifest : Manifest) (platform text : String) :
    PlatformOutcome manifest platform (manifest.withSignature platform text)
      ∧ PlatformOutcome manifest platform (manifest.withAddress platform text)
      ∧ (∀ fault message, PlatformFault manifest platform fault message → fault.message = message)
      ∧ (∀ field, manifest.setPlatformMember platform field text =
        match manifest.withPlatformMember platform field text with
        | .ok changed => (.ok (), changed)
        | .error fault => (.error fault, manifest))
      ∧ (∀ keys, (∀ members, manifest.document.root.objectAt keys = .ok members ↔
            manifest.document.root.valueAt keys = some (.object members))
          ∧ (∀ fault, manifest.document.root.objectAt keys = .error fault ↔
            FirstFault keys manifest.document.root fault)
          ∧ ∀ place other, place <+: keys → other <+: keys →
            Document.pointer place = Document.pointer other → place = other)
      ∧ ∀ keys leaf text, manifest.document.setString keys leaf text =
        match manifest.document.putString keys leaf text with
        | .ok changed => (.ok (), changed)
        | .error fault => (.error fault, manifest.document) :=
  ⟨platformOutcome manifest platform "signature" text,
    platformOutcome manifest platform "url" text,
    fun _ _ hfault => hfault.message_eq,
    fun field => setPlatformMember_eq manifest platform field text,
    fun _ => ⟨fun _ => objectAt_eq_ok_iff, fun _ => objectAt_eq_error_iff,
      fun _ _ => Document.pointer_injective⟩,
    Document.setString_eq manifest.document⟩

/-- A manifest with a platform without a name and one with a slash in it, which is no object. -/
def slashedManifest : Manifest where
  document :=
    { path := "feed.json"
      root := .object [("platforms", .object [("", .object []), ("a/b", .null)])]
      endsInLineBreak := false }

theorem platform_edits_sample :
    (∃ changed, slashedManifest.withSignature "" "s" = .ok changed)
      ∧ slashedManifest.withSignature "a" "s" = .error (.unlistedPlatform "feed.json" "a")
      ∧ ∃ fault, slashedManifest.withAddress "a/b" "u" = .error fault
        ∧ fault.message = "feed.json: expected a JSON object at /platforms/a/b" := by
  refine ⟨?_, ?_, ?_⟩
  · exact (platform_edits slashedManifest "" "s").1.succeeds.mpr ⟨_, _, _, rfl, rfl, rfl⟩
  · exact ((platform_edits slashedManifest "a" "s").1.fails _).mpr ⟨_, .unlisted rfl rfl rfl⟩
  · have hfault : PlatformFault slashedManifest "a/b" _ _ :=
      .platform rfl rfl rfl (by simp [IsObject])
    obtain ⟨-, houtcome, hmessage, -⟩ := platform_edits slashedManifest "a/b" "u"
    refine ⟨_, (houtcome.fails _).mpr ⟨_, hfault⟩, (hmessage _ _ hfault).trans ?_⟩
    simp [slashedManifest]

end Manifest

end UpdateFeed
