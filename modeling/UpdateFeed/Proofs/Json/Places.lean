import UpdateFeed.Proofs.Json.Forms

/-!
# Places in a document

A place is a way down from the root, through members of objects and items of arrays, so every value
of a document has one.  The place to which keys lead goes through members only.

- `at?_append`, `at?_placeOf`: the values at places.
- `Formed.nodup_keys`: no object of a document that was read has a key twice, wherever it is.
-/

namespace UpdateFeed.Json

/-! ## §1 Values at places -/

/-- A step from a value to one in it. -/
inductive Step where
  /-- To the value of a member. -/
  | member (key : String)
  /-- To an item. -/
  | item (index : Nat)
  deriving DecidableEq, Repr

/-- The value at a place. -/
def at? : List Step → Json → Option Json
  | [], json => some json
  | .member key :: place, .object members => (lookup key members).bind (at? place)
  | .item index :: place, .array items => items[index]?.bind (at? place)
  | _ :: _, _ => none

/-- The place to which keys lead. -/
abbrev placeOf (keys : List String) : List Step := keys.map .member

variable {depth : Nat} {holds : Number → Prop} {place : List Step} {members : Members}
  {json value : Json}

@[simp] theorem at?_nil (json : Json) : json.at? [] = some json := by
  cases json <;> rfl

@[simp] theorem at?_member (key : String) (place : List Step) (members : Members) :
    at? (.member key :: place) (.object members) = (lookup key members).bind (at? place) := rfl

theorem at?_append (place more : List Step) (json : Json) :
    json.at? (place ++ more) = (json.at? place).bind (at? more) := by
  induction place generalizing json with
  | nil => simp
  | cons step place ih =>
    cases step with
    | member key =>
      cases json with
      | object members => cases hfound : lookup key members <;> simp [hfound, ih]
      | _ => rfl
    | item index =>
      cases json with
      | array items => cases hitem : items[index]? <;> simp [at?, hitem, ih]
      | _ => rfl

/-- The value at the place of some keys is the one to which the keys lead. -/
theorem at?_placeOf (keys : List String) (json : Json) :
    json.at? (placeOf keys) = json.valueAt keys := by
  induction keys generalizing json with
  | nil => simp
  | cons key keys ih =>
    cases json with
    | object members => simp [ih]
    | _ => rfl

theorem placeOf_prefix_iff {keys address : List String} :
    placeOf keys <+: placeOf address ↔ keys <+: address :=
  List.prefix_map_iff_of_injective fun _ _ => Step.member.inj

/-! ## §2 Distinct keys -/

/-- What is in a value of the form is of the form. -/
theorem Formed.exists_at (h : Formed holds depth json) (hat : json.at? place = some value) :
    ∃ depth, Formed holds depth value := by
  induction place generalizing json depth with
  | nil =>
    obtain rfl : json = value := by simpa using hat
    exact ⟨depth, h⟩
  | cons step place ih =>
    -- members are those of objects, and items those of arrays
    cases step with
    | member key =>
      cases h with
      | object hkeys hmembers =>
        obtain ⟨found, hfound, hvalue⟩ := Option.bind_eq_some_iff.mp hat
        exact ih (hmembers _ (mem_of_lookup hfound)) hvalue
      | _ => cases hat
    | item index =>
      cases h with
      | array hitems =>
        obtain ⟨item, hitem, hvalue⟩ := Option.bind_eq_some_iff.mp hat
        exact ih (hitems item (List.mem_of_getElem? hitem)) hvalue
      | _ => cases hat

/-- In a value of the form no object has a key twice, wherever it is. -/
theorem Formed.nodup_keys (h : Formed holds depth json)
    (hat : json.at? place = some (.object members)) : (members.map Prod.fst).Nodup := by
  obtain ⟨below, hobject⟩ := h.exists_at hat
  cases hobject with
  | object hkeys => exact hkeys

end UpdateFeed.Json
