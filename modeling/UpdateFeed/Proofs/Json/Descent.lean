import UpdateFeed.Proofs.Json.Replacement

/-!
# Ways to an object

An edit goes from the root along its keys, and each value on the way has to be an object.  When it
stops, the fault names the place where it has stopped, and says whether there is another value or no
value at all.

- `Reaches`: how far the way along some keys comes.
- `objectAt_eq_error_iff`: the fault is that of the first step that cannot be made.
- `Rewritten.objectAt_eq_error_iff`: the fault stays when strings are written elsewhere.
-/

namespace UpdateFeed.Json

variable {key : String} {keys place : List String} {members : Members}
  {json value : Json} {fault : AddressFault}

/-- Whether a value is an object. -/
def IsObject (json : Json) : Prop := ∃ members, json = .object members

/-! ## §1 Values on the way -/

/-- Whether the way along some keys comes as far as a place: the values before it are objects. -/
structure Reaches (keys : List String) (json : Json) (place : List String) : Prop where
  onWay : place <+: keys
  objects : ∀ earlier, earlier <+: place → earlier ≠ place →
    ∃ members, json.valueAt earlier = some (.object members)

theorem reaches_nil (keys : List String) (json : Json) : Reaches keys json [] where
  onWay := List.nil_prefix
  objects _ hprefix hne := absurd (List.prefix_nil.mp hprefix) hne

/-- Behind the first key the way goes on in the value of the member. -/
theorem reaches_cons_iff (h : lookup key members = some value) :
    Reaches (key :: keys) (.object members) (key :: place) ↔ Reaches keys value place := by
  constructor
  · rintro ⟨honWay, hobjects⟩
    refine ⟨by simpa using honWay, fun earlier hprefix hne => ?_⟩
    have hbelow := hobjects (key :: earlier) (by simpa using hprefix) (by simpa using hne)
    simpa [h] using hbelow
  · rintro ⟨honWay, hobjects⟩
    refine ⟨by simpa using honWay, fun earlier hprefix hne => ?_⟩
    -- before the place there is the root, and what is before it in the member
    cases earlier with
    | nil => exact ⟨members, rfl⟩
    | cons other others =>
      obtain ⟨rfl, hothers⟩ := List.cons_prefix_cons.mp hprefix
      have hbelow := hobjects others hothers (by simpa using hne)
      simpa [h] using hbelow

/-! ## §2 The first step that cannot be made -/

/-- The fault of the first step along some keys that cannot be made. -/
inductive FirstFault (keys : List String) (json : Json) : AddressFault → Prop
  /-- The value at the place is not an object. -/
  | noObject {place : List String} {value : Json} (reached : Reaches keys json place)
      (found : json.valueAt place = some value) (other : ¬ value.IsObject) :
      FirstFault keys json (.noObject place)
  /-- The object before the place lacks the last key of the place. -/
  | noMember {place : List String} (reached : Reaches keys json place)
      (missing : json.valueAt place = none) : FirstFault keys json (.noMember place)

/-- The fault behind the first key is the one in the value of the member. -/
theorem firstFault_cons_iff (h : lookup key members = some value) :
    FirstFault (key :: keys) (.object members) fault ↔
      ∃ inner, FirstFault keys value inner ∧ inner.below key = fault := by
  constructor
  -- the root is an object, so the place of the fault is further down
  · rintro (⟨hreached, hfound, hother⟩ | ⟨hreached, hmissing⟩)
    · rename_i place _
      cases place with
      | nil => exact absurd ⟨members, (Option.some.inj hfound).symm⟩ hother
      | cons other place =>
        obtain ⟨rfl, -⟩ := List.cons_prefix_cons.mp hreached.onWay
        refine ⟨.noObject place, .noObject ((reaches_cons_iff h).mp hreached) ?_ hother, rfl⟩
        simpa [h] using hfound
    · rename_i place
      cases place with
      | nil => cases hmissing
      | cons other place =>
        obtain ⟨rfl, -⟩ := List.cons_prefix_cons.mp hreached.onWay
        refine ⟨.noMember place, .noMember ((reaches_cons_iff h).mp hreached) ?_, rfl⟩
        simpa [h] using hmissing
  · rintro ⟨inner, ⟨hreached, hfound, hother⟩ | ⟨hreached, hmissing⟩, rfl⟩
    · refine .noObject ((reaches_cons_iff h).mpr hreached) ?_ hother
      simpa [h] using hfound
    · refine .noMember ((reaches_cons_iff h).mpr hreached) ?_
      simpa [h] using hmissing

/-- Where the first key is missing, that is the fault. -/
theorem firstFault_cons_of_none (h : lookup key members = none) :
    FirstFault (key :: keys) (.object members) fault ↔ fault = .noMember [key] := by
  constructor
  · rintro (⟨hreached, hfound, hother⟩ | ⟨hreached, hmissing⟩)
    · rename_i place _
      cases place with
      | nil => exact absurd ⟨members, (Option.some.inj hfound).symm⟩ hother
      | cons other place =>
        obtain ⟨rfl, -⟩ := List.cons_prefix_cons.mp hreached.onWay
        simp [h] at hfound
    · rename_i place
      cases place with
      | nil => cases hmissing
      | cons other place =>
        obtain ⟨rfl, -⟩ := List.cons_prefix_cons.mp hreached.onWay
        -- the way does not come further than to the missing key
        cases place with
        | nil => rfl
        | cons second place =>
          obtain ⟨_, hbefore⟩ := hreached.objects [other] (by simp) (by simp)
          simp [h] at hbefore
  · rintro rfl
    refine .noMember ⟨by simp, fun earlier hprefix hne => ?_⟩ (by simp [h])
    -- only the root is before the missing key
    cases earlier with
    | nil => exact ⟨members, rfl⟩
    | cons other others =>
      obtain ⟨rfl, hothers⟩ := List.cons_prefix_cons.mp hprefix
      simp [List.prefix_nil.mp hothers] at hne

/-- Where there is no object to begin with, that is the fault. -/
theorem firstFault_of_not_isObject (h : ¬ json.IsObject) :
    FirstFault keys json fault ↔ fault = .noObject [] := by
  constructor
  · rintro (⟨hreached, -, -⟩ | ⟨hreached, hmissing⟩)
    · rename_i place _
      -- going one key deep asks the root for an object
      cases place with
      | nil => rfl
      | cons key place =>
        obtain ⟨members, hroot⟩ := hreached.objects [] List.nil_prefix (by simp)
        exact absurd ⟨members, Option.some.inj hroot⟩ h
    · rename_i place
      cases place with
      | nil => cases hmissing
      | cons key place =>
        obtain ⟨members, hroot⟩ := hreached.objects [] List.nil_prefix (by simp)
        exact absurd ⟨members, Option.some.inj hroot⟩ h
  · rintro rfl
    exact .noObject (reaches_nil keys json) rfl h

theorem objectAt_of_not_isObject (h : ¬ json.IsObject) (keys : List String) :
    objectAt keys json = .error (.noObject []) := by
  cases json with
  | object members => exact absurd ⟨members, rfl⟩ h
  | _ => cases keys <;> rfl

/-- The fault of a way is that of the first step that cannot be made. -/
theorem objectAt_eq_error_iff : objectAt keys json = .error fault ↔ FirstFault keys json fault := by
  induction keys generalizing json fault with
  | nil =>
    by_cases hobject : json.IsObject
    · -- the root is all that is asked for
      obtain ⟨members, rfl⟩ := hobject
      constructor
      · intro h
        cases h
      · rintro (⟨hreached, hfound, hother⟩ | ⟨hreached, hmissing⟩)
        · obtain rfl := List.prefix_nil.mp hreached.onWay
          exact absurd ⟨members, (Option.some.inj hfound).symm⟩ hother
        · obtain rfl := List.prefix_nil.mp hreached.onWay
          cases hmissing
    · rw [objectAt_of_not_isObject hobject, firstFault_of_not_isObject hobject]
      simp [eq_comm]
  | cons key keys ih =>
    by_cases hobject : json.IsObject
    · obtain ⟨members, rfl⟩ := hobject
      cases hfound : lookup key members with
      | none =>
        rw [firstFault_cons_of_none hfound, objectAt_of_lookup_eq_none hfound]
        simp [eq_comm]
      | some value =>
        rw [firstFault_cons_iff hfound, objectAt_of_lookup hfound]
        simp only [mapError_eq_error, ih]
    · rw [objectAt_of_not_isObject hobject, firstFault_of_not_isObject hobject]
      simp [eq_comm]

/-! ## §3 Ways behind a rewriting -/

variable {address : List String} {texts : Texts} {before after other : Json}

/-- Whether two values have the same value at an address, or an object each. -/
def AlikeAt (address : List String) (json other : Json) : Prop :=
  other.valueAt address = json.valueAt address
    ∨ (∃ members, json.valueAt address = some (.object members))
      ∧ ∃ members, other.valueAt address = some (.object members)

theorem AlikeAt.symm (h : AlikeAt address json other) : AlikeAt address other json :=
  h.imp Eq.symm And.symm

/-- Values that are alike all along the way have the same fault on it. -/
theorem FirstFault.of_alikeAt (h : FirstFault keys json fault)
    (halike : ∀ address, address <+: keys → AlikeAt address json other) :
    FirstFault keys other fault := by
  have hreaches : ∀ {place}, Reaches keys json place → Reaches keys other place := by
    intro place hreached
    refine ⟨hreached.onWay, fun earlier honWay hne => ?_⟩
    rcases halike earlier (honWay.trans hreached.onWay) with hsame | ⟨-, hobject⟩
    · rw [hsame]
      exact hreached.objects earlier honWay hne
    · exact hobject
  cases h with
  | @noObject place value reached found other =>
    rcases halike place reached.onWay with hsame | ⟨⟨members, hobject⟩, -⟩
    · exact .noObject (hreaches reached) (hsame.trans found) other
    · -- what is found at the place is no object
      exact absurd ⟨members, Option.some.inj (found.symm.trans hobject)⟩ other
  | noMember reached missing =>
    rcases halike _ reached.onWay with hsame | ⟨⟨members, hobject⟩, -⟩
    · exact .noMember (hreaches reached) (hsame.trans missing)
    · cases missing.symm.trans hobject

/-- A rewriting keeps what is at an address, or an object at it, unless it writes there or above. -/
theorem Rewritten.alikeAt (h : Rewritten texts before after)
    (apart : ∀ place text, (place, text) ∈ texts → ¬ place <+: address) :
    AlikeAt address before after := by
  by_cases habove : ∃ place text, (place, text) ∈ texts ∧ address <+: place
  · -- a string stands below the address, so there is an object
    obtain ⟨_, text, hmem, rest, rfl⟩ := habove
    have hobject : ∃ members, after.valueAt address = some (.object members) := by
      have hwritten := h.written _ _ hmem
      rw [valueAt_append] at hwritten
      obtain ⟨value, hvalue, hrest⟩ := Option.bind_eq_some_iff.mp hwritten
      cases rest with
      | nil => exact absurd (by simp) (apart _ _ hmem)
      | cons key rest =>
        obtain ⟨members, _, rfl, _, _⟩ := valueAt_cons_eq_some_iff.mp hrest
        exact ⟨members, hvalue⟩
    exact .inr ⟨(h.object_iff apart).mp hobject, hobject⟩
  · exact .inl (h.kept address fun place text hmem =>
      ⟨apart place text hmem, fun hbelow => habove ⟨place, text, hmem, hbelow⟩⟩)

/-- Strings that are written neither on a way nor above it do not change its fault. -/
theorem Rewritten.objectAt_eq_error_iff (h : Rewritten texts before after)
    (apart : ∀ place text, (place, text) ∈ texts → ¬ place <+: keys) :
    objectAt keys after = .error fault ↔ objectAt keys before = .error fault := by
  have halike : ∀ address, address <+: keys → AlikeAt address before after :=
    fun address honWay => h.alikeAt fun place text hmem hbelow =>
      apart place text hmem (hbelow.trans honWay)
  rw [Json.objectAt_eq_error_iff, Json.objectAt_eq_error_iff]
  exact ⟨fun hfault => hfault.of_alikeAt fun address honWay => (halike address honWay).symm,
    fun hfault => hfault.of_alikeAt halike⟩

end UpdateFeed.Json
