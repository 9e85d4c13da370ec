import UpdateFeed.Proofs.Json.Replacement

/-!
# Setting a member

What an edit changes in a whole document, at every place and not only at lists of keys: its member
has the string, every value that is neither above nor below it is the old one, and every object
keeps its keys in their order, but for those within the old value.  A new member is the last one of
its object.

- `Sets`: all this of a document before and after.
- `sets_putString`: an edit sets its member.
-/

namespace UpdateFeed.Json

variable {keys : List String} {leaf text : String} {place : List Step} {before after : Json}

/-- What setting a string member of the object at some keys changes in a document, and what it
keeps. -/
structure Sets (keys : List String) (leaf text : String) (before after : Json) : Prop where
  /-- The member has the string. -/
  written : after.valueAt (keys ++ [leaf]) = some (.string text)
  /-- The values that are neither above nor below the member are the old ones. -/
  kept : ∀ place, ¬ placeOf (keys ++ [leaf]) <+: place → ¬ place <+: placeOf (keys ++ [leaf]) →
    after.at? place = before.at? place
  /-- All objects have their keys in the old order, but for those within the old value of the
  member, and for the object that the member belongs to. -/
  ordered : ∀ place, ¬ placeOf (keys ++ [leaf]) <+: place → place ≠ placeOf keys →
    (after.at? place).bind keys? = (before.at? place).bind keys?
  /-- The object of the member has its keys in the old order.  A new member is the last one. -/
  appended : ∃ names, (before.valueAt keys).bind keys? = some names
    ∧ (after.valueAt keys).bind keys? = some (if leaf ∈ names then names else names ++ [leaf])

/-- A write leaves the values elsewhere in the object as they are. -/
theorem at?_assign_of_apart (hbelow : ¬ [Step.member leaf] <+: place) (hne : place ≠ [])
    (value : Json) (members : Members) :
    at? place (.object (assign leaf value members)) = at? place (.object members) := by
  cases place with
  | nil => exact absurd rfl hne
  | cons step place =>
    cases step with
    | item index => rfl
    | member key =>
      have hkey : leaf ≠ key := by
        rintro rfl
        simp at hbelow
      rw [at?_member, at?_member, lookup_assign_of_ne hkey]

/-- An edit sets its member, and keeps all else. -/
theorem sets_putString (h : putString leaf text keys before = .ok after) :
    Sets keys leaf text before after := by
  obtain ⟨members, hmembers, rfl⟩ := putString_eq_ok_iff.mp h
  have hat : before.at? (placeOf keys) = some (.object members) := by
    rw [at?_placeOf, hmembers]
  have hafter := valueAt_replaceAt_self hmembers (.object (assign leaf (.string text) members))
  have hatafter := (at?_placeOf keys _).trans hafter
  -- within the object the write matters, and elsewhere the replacement
  have hinside : ∀ rest, ¬ [Step.member leaf] <+: rest → rest ≠ [] →
      at? (placeOf keys ++ rest)
          (before.replaceAt keys (.object (assign leaf (.string text) members))) =
        before.at? (placeOf keys ++ rest) := by
    intro rest hbelow hne
    rw [at?_append, at?_append, hatafter, hat, Option.bind_some, Option.bind_some,
      at?_assign_of_apart hbelow hne]
  constructor
  case written =>
    rw [valueAt_append, hafter, Option.bind_some]
    simp
  case kept =>
    intro place hbelow habove
    by_cases hobject : placeOf keys <+: place
    · obtain ⟨rest, rfl⟩ := hobject
      apply hinside
      · simpa [List.map_append] using hbelow
      · rintro rfl
        simp at habove
    · apply at?_replaceAt_of_apart hobject
      intro hwithin
      exact habove (hwithin.trans (by simp))
  case ordered =>
    intro place hbelow hne
    by_cases hobject : placeOf keys <+: place
    · obtain ⟨rest, rfl⟩ := hobject
      rw [hinside]
      · simpa [List.map_append] using hbelow
      · rintro rfl
        simp at hne
    · exact keys?_replaceAt hobject before _
  case appended =>
    refine ⟨members.map Prod.fst, by rw [hmembers]; rfl, ?_⟩
    rw [hafter, Option.bind_some, keys?, keys_assign]

end UpdateFeed.Json
