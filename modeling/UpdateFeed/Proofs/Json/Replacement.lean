import UpdateFeed.Proofs.Interchange
import UpdateFeed.Proofs.Json.Places

/-!
# Replacing a value in its place

`replaceAt` puts a value in the place of the one at a list of keys.  An edit of a string member is
such a replacement: it finds the object at its keys, and puts the object with the member in its
place.  So what edits do to one another is read off what replacements do to one another.

- `putString_eq`: an edit finds an object first, and replaces it then.
- `at?_replaceAt_of_apart`, `keys?_replaceAt`: what a replacement keeps.
- `replaceAt_comm`: replacements at addresses of which none leads to the other.
- `replaceAt_append`: a replacement within a value.
- `interchange_putString`: edits of two objects of which none is within the other.
- `putString_comm_of_valueAt`: edits of two members that are there.
-/

namespace UpdateFeed.Json

variable {key leaf text : String} {keys address : List String} {place : List Step}
  {members : Members} {json value old new : Json}

/-! ## §1 Members -/

theorem lookup_eq_none_iff : lookup key members = none ↔ key ∉ members.map Prod.fst := by
  fun_induction lookup key members with
  | case1 => simp
  | case2 => simp
  | case3 k value members hne ih => simp [ih, Ne.symm hne]

/-- Changes the value of a key, if the key is there. -/
def adjust (key : String) (change : Json → Json) : Members → Members
  | [] => []
  | (k, value) :: members =>
    if k = key then (k, change value) :: members else (k, value) :: adjust key change members

@[simp] theorem keys_adjust (key : String) (change : Json → Json) (members : Members) :
    (adjust key change members).map Prod.fst = members.map Prod.fst := by
  fun_induction adjust key change members with
  | case1 => rfl
  | case2 => rfl
  | case3 k value members hne ih => simp [ih]

@[simp] theorem lookup_adjust_self (key : String) (change : Json → Json) (members : Members) :
    lookup key (adjust key change members) = (lookup key members).map change := by
  fun_induction adjust key change members with
  | case1 => rfl
  | case2 => simp [lookup]
  | case3 k value members hne ih => simp [lookup, hne, ih]

theorem lookup_adjust_of_ne {other : String} (hne : key ≠ other) (change : Json → Json)
    (members : Members) : lookup other (adjust key change members) = lookup other members := by
  fun_induction adjust key change members with
  | case1 => rfl
  | case2 value members => simp [lookup, hne]
  | case3 k value members hk ih => simp [lookup, ih]

theorem adjust_adjust (key : String) (first second : Json → Json) (members : Members) :
    adjust key second (adjust key first members) =
      adjust key (fun value => second (first value)) members := by
  fun_induction adjust key first members with
  | case1 => rfl
  | case2 => simp [adjust]
  | case3 k value members hne ih => simp [adjust, hne, ih]

/-- Values of different keys are changed in either order. -/
theorem adjust_comm {other : String} (hne : key ≠ other) (first second : Json → Json)
    (members : Members) :
    adjust other second (adjust key first members) =
      adjust key first (adjust other second members) := by
  induction members with
  | nil => rfl
  | cons member members ih =>
    obtain ⟨k, value⟩ := member
    -- a member has at most one of the two keys
    by_cases hkey : k = key
    · subst hkey
      simp [adjust, hne]
    · by_cases hother : k = other
      · simp [adjust, hother, Ne.symm hne]
      · simp [adjust, hkey, hother, ih]

/-- A change of a value that is there is a write. -/
theorem adjust_of_lookup (h : lookup key members = some value) (change : Json → Json) :
    adjust key change members = assign key (change value) members := by
  fun_induction lookup key members with
  | case1 => cases h
  | case2 found members =>
    obtain rfl := Option.some.inj h
    simp [adjust, assign]
  | case3 k found members hne ih => simp [adjust, assign, hne, ih h]

/-! ## §2 Replacements -/

/-- Puts a value in the place of the one at a list of keys.  Where the keys lead to no value
nothing is changed. -/
def replaceAt : Json → List String → Json → Json
  | _, [], new => new
  | .object members, key :: keys, new => .object (adjust key (·.replaceAt keys new) members)
  | json, _ :: _, _ => json

@[simp] theorem replaceAt_nil (json new : Json) : json.replaceAt [] new = new := by
  cases json <;> rfl

@[simp] theorem replaceAt_object (members : Members) (key : String) (keys : List String)
    (new : Json) :
    replaceAt (.object members) (key :: keys) new =
      .object (adjust key (·.replaceAt keys new) members) := rfl

/-- A value below a key is a value of a member. -/
theorem valueAt_cons_eq_some_iff : json.valueAt (key :: keys) = some value ↔
    ∃ members found, json = .object members ∧ lookup key members = some found
      ∧ found.valueAt keys = some value := by
  cases json with
  | object members => simp [Option.bind_eq_some_iff]
  | _ => simp [valueAt, member?]

theorem valueAt_append (keys more : List String) (json : Json) :
    json.valueAt (keys ++ more) = (json.valueAt keys).bind (valueAt more) := by
  induction keys generalizing json with
  | nil => rfl
  | cons key keys ih =>
    cases json with
    | object members =>
      cases hfound : lookup key members with
      | none => simp [hfound]
      | some found => simp [hfound, ih]
    | _ => rfl

/-- A value that is put in a place is there. -/
theorem valueAt_replaceAt_self (h : json.valueAt keys = some old) (new : Json) :
    (json.replaceAt keys new).valueAt keys = some new := by
  induction keys generalizing json with
  | nil => simp
  | cons key keys ih =>
    obtain ⟨members, found, rfl, hfound, hold⟩ := valueAt_cons_eq_some_iff.mp h
    simp [hfound, ih hold]

/-- A value that is put in its own place changes nothing. -/
theorem replaceAt_of_valueAt (h : json.valueAt keys = some value) :
    json.replaceAt keys value = json := by
  induction keys generalizing json with
  | nil => simpa using h.symm
  | cons key keys ih =>
    obtain ⟨members, found, rfl, hfound, hvalue⟩ := valueAt_cons_eq_some_iff.mp h
    rw [replaceAt_object, adjust_of_lookup hfound, ih hvalue, assign_of_lookup hfound]

/-- Of two values that are put in one place the second one stays. -/
theorem replaceAt_replaceAt (json : Json) (keys : List String) (first second : Json) :
    (json.replaceAt keys first).replaceAt keys second = json.replaceAt keys second := by
  induction keys generalizing json with
  | nil => simp
  | cons key keys ih =>
    cases json with
    | object members => simp [adjust_adjust, ih]
    | _ => rfl

/-- A replacement within a value replaces that value by one with the replacement in it. -/
theorem replaceAt_append (h : json.valueAt keys = some value) (more : List String)
    (new : Json) :
    json.replaceAt (keys ++ more) new = json.replaceAt keys (value.replaceAt more new) := by
  induction keys generalizing json with
  | nil =>
    obtain rfl : json = value := by simpa using h
    simp
  | cons key keys ih =>
    obtain ⟨members, found, rfl, hfound, hvalue⟩ := valueAt_cons_eq_some_iff.mp h
    rw [List.cons_append, replaceAt_object, replaceAt_object, adjust_of_lookup hfound,
      adjust_of_lookup hfound, ih hvalue]

/-- A replacement leaves the values elsewhere as they are. -/
theorem at?_replaceAt_of_apart (hbelow : ¬ placeOf keys <+: place)
    (habove : ¬ place <+: placeOf keys) (json new : Json) :
    (json.replaceAt keys new).at? place = json.at? place := by
  induction keys generalizing place json with
  | nil => exact absurd List.nil_prefix hbelow
  | cons key keys ih =>
    cases place with
    | nil => exact absurd List.nil_prefix habove
    | cons step place =>
      cases json with
      | object members =>
        cases step with
        | item index => rfl
        | member other =>
          rw [replaceAt_object, at?_member, at?_member]
          by_cases hkey : key = other
          · -- the two go on together below the key
            subst hkey
            rw [lookup_adjust_self, Option.bind_map]
            congr 1
            funext value
            apply ih
            · simpa using hbelow
            · simpa using habove
          · rw [lookup_adjust_of_ne hkey]
      | _ => rfl

/-- A replacement leaves the keys of all objects as they are, but for those within it. -/
theorem keys?_replaceAt (h : ¬ placeOf keys <+: place) (json new : Json) :
    ((json.replaceAt keys new).at? place).bind keys? = (json.at? place).bind keys? := by
  induction keys generalizing place json with
  | nil => exact absurd List.nil_prefix h
  | cons key keys ih =>
    cases json with
    | object members =>
      cases place with
      | nil =>
        -- the object itself is adjusted, which keeps its keys
        simp [keys?]
      | cons step place =>
        cases step with
        | item index => rfl
        | member other =>
          rw [replaceAt_object, at?_member, at?_member]
          by_cases hkey : key = other
          · subst hkey
            have hbelow : ¬ placeOf keys <+: place := by simpa using h
            cases hfound : lookup key members with
            | none => simp [hfound]
            | some found => simp [hfound, ih hbelow]
          · rw [lookup_adjust_of_ne hkey]
    | _ => rfl

/-- A replacement leaves the values at other addresses as they are. -/
theorem valueAt_replaceAt_of_apart (hbelow : ¬ keys <+: address) (habove : ¬ address <+: keys)
    (json new : Json) : (json.replaceAt keys new).valueAt address = json.valueAt address := by
  rw [← at?_placeOf, ← at?_placeOf]
  apply at?_replaceAt_of_apart
  · rwa [placeOf_prefix_iff]
  · rwa [placeOf_prefix_iff]

/-- Values are put in two places in either order if none of the places is within the other. -/
theorem replaceAt_comm (hbelow : ¬ keys <+: address) (habove : ¬ address <+: keys)
    (json new new' : Json) :
    (json.replaceAt keys new).replaceAt address new' =
      (json.replaceAt address new').replaceAt keys new := by
  induction keys generalizing address json with
  | nil => exact absurd List.nil_prefix hbelow
  | cons key keys ih =>
    cases address with
    | nil => exact absurd List.nil_prefix habove
    | cons other others =>
      cases json with
      | object members =>
        simp only [replaceAt_object]
        by_cases hkey : key = other
        · -- the two go on together below the key
          subst hkey
          have hswap : ∀ value : Json,
              (value.replaceAt keys new).replaceAt others new' =
                (value.replaceAt others new').replaceAt keys new := by
            apply ih
            · simpa using hbelow
            · simpa using habove
          simp only [adjust_adjust, hswap]
        · rw [adjust_comm hkey]
      | _ => rfl

/-! ## §3 Edits as replacements -/

/-- The way to an object goes on in the value of the first key. -/
theorem objectAt_of_lookup (h : lookup key members = some value) (keys : List String) :
    objectAt (key :: keys) (.object members) = (objectAt keys value).mapError (·.below key) := by
  rw [objectAt, h]

/-- The way to an object ends where the first key is missing. -/
theorem objectAt_of_lookup_eq_none (h : lookup key members = none) (keys : List String) :
    objectAt (key :: keys) (.object members) = .error (.noMember [key]) := by
  rw [objectAt, h]

/-- The way to an object succeeds where there is one. -/
theorem objectAt_eq_ok_iff :
    objectAt keys json = .ok members ↔ json.valueAt keys = some (.object members) := by
  induction keys generalizing json with
  | nil => cases json <;> simp [objectAt]
  | cons key keys ih =>
    cases json with
    | object outer =>
      cases hfound : lookup key outer with
      | none => simp [objectAt_of_lookup_eq_none hfound, hfound]
      | some found =>
        rw [objectAt_of_lookup hfound, valueAt_cons, hfound, Option.bind_some, ← ih]
        exact mapError_eq_ok
    | _ => simp [objectAt, valueAt, member?]

/-- An edit finds the object at its keys, and puts the object with the string in its place. -/
theorem putString_eq (leaf text : String) (keys : List String) (json : Json) :
    putString leaf text keys json = (objectAt keys json).map fun members =>
      json.replaceAt keys (.object (assign leaf (.string text) members)) := by
  induction keys generalizing json with
  | nil => cases json <;> rfl
  | cons key keys ih =>
    cases json with
    | object members =>
      cases hfound : lookup key members with
      | none => simp [putString, objectAt, hfound, Except.map]
      | some found =>
        simp only [putString, objectAt, hfound, ih, replaceAt_object, adjust_of_lookup hfound]
        -- both go on at the value of the member, and a fault is seen from above
        cases objectAt keys found with
        | ok inner => rfl
        | error fault => rfl
    | _ => rfl

theorem putString_eq_ok_iff : putString leaf text keys json = .ok new ↔
    ∃ members, json.valueAt keys = some (.object members)
      ∧ json.replaceAt keys (.object (assign leaf (.string text) members)) = new := by
  rw [putString_eq, map_eq_ok]
  simp only [objectAt_eq_ok_iff]

/-- An edit succeeds where there is an object for it. -/
theorem putString_of_object (h : json.valueAt keys = some (.object members)) (leaf text : String) :
    putString leaf text keys json =
      .ok (json.replaceAt keys (.object (assign leaf (.string text) members))) :=
  putString_eq_ok_iff.mpr ⟨members, h, rfl⟩

/-- An edit of a member that is there puts the string in the place of its value. -/
theorem putString_of_member (h : json.valueAt (keys ++ [leaf]) = some old) (text : String) :
    putString leaf text keys json = .ok (json.replaceAt (keys ++ [leaf]) (.string text)) := by
  -- the member is in an object, which the edit finds
  rw [valueAt_append] at h
  obtain ⟨found, hfound, hold⟩ := Option.bind_eq_some_iff.mp h
  obtain ⟨members, value, rfl, hvalue, -⟩ := valueAt_cons_eq_some_iff.mp hold
  rw [putString_of_object hfound, replaceAt_append hfound, replaceAt_object,
    adjust_of_lookup hvalue, replaceAt_nil]

/-! ## §4 Two edits -/

/-- Edits of two objects can be made in either order if none of the objects is within the other. -/
theorem interchange_putString (hbelow : ¬ keys <+: address) (habove : ¬ address <+: keys)
    (leaf text leaf' text' : String) :
    Interchange (putString leaf text keys) (putString leaf' text' address) := by
  -- one of the two orders suffices, as it is said for all edits
  suffices hone : ∀ {first second : List String} {leaf leaf' text text' : String}
      {json last : Json}, ¬ first <+: second → ¬ second <+: first →
      (putString leaf text first json >>= putString leaf' text' second) = .ok last →
      (putString leaf' text' second json >>= putString leaf text first) = .ok last from
    fun before after => ⟨hone hbelow habove, hone habove hbelow⟩
  intro first second leaf leaf' text text' json last hbelow habove h
  obtain ⟨between, hfirst, hsecond⟩ := exists_of_bind_eq_ok h
  obtain ⟨members, hmembers, rfl⟩ := putString_eq_ok_iff.mp hfirst
  obtain ⟨members', hmembers', rfl⟩ := putString_eq_ok_iff.mp hsecond
  -- neither of the objects is changed by the edit of the other one
  rw [valueAt_replaceAt_of_apart hbelow habove] at hmembers'
  rw [putString_of_object hmembers', ok_bind, putString_of_object, replaceAt_comm habove hbelow]
  rw [valueAt_replaceAt_of_apart habove hbelow]
  exact hmembers

/-- Edits of two members that are there can be made in either order if none of them is within the
other. -/
theorem putString_comm_of_valueAt {leaf' : String} {old' : Json}
    (h : json.valueAt (keys ++ [leaf]) = some old)
    (h' : json.valueAt (address ++ [leaf']) = some old')
    (hbelow : ¬ keys ++ [leaf] <+: address ++ [leaf'])
    (habove : ¬ address ++ [leaf'] <+: keys ++ [leaf]) (text text' : String) :
    ∃ last, (putString leaf text keys json >>= putString leaf' text' address) = .ok last
      ∧ (putString leaf' text' address json >>= putString leaf text keys) = .ok last := by
  -- each of the members is there also behind the edit of the other one
  have hstays : (json.replaceAt (keys ++ [leaf]) (.string text)).valueAt (address ++ [leaf']) =
      some old' := by
    rw [valueAt_replaceAt_of_apart hbelow habove, h']
  have hstays' : (json.replaceAt (address ++ [leaf']) (.string text')).valueAt (keys ++ [leaf]) =
      some old := by
    rw [valueAt_replaceAt_of_apart habove hbelow, h]
  refine ⟨(json.replaceAt (keys ++ [leaf]) (.string text)).replaceAt (address ++ [leaf'])
    (.string text'), ?_, ?_⟩
  · rw [putString_of_member h, ok_bind, putString_of_member hstays]
  · rw [putString_of_member h', ok_bind, putString_of_member hstays',
      replaceAt_comm habove hbelow]

end UpdateFeed.Json
