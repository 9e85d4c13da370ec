import UpdateFeed.Json.Printer
import UpdateFeed.Proofs.Json.Replacement

/-!
# The text around a value

How a value is printed depends on how deep it stands, and on nothing else around it.  So the text in
front of a value and the text behind it are the same whatever the value is, and when a member is
added to an object the text of the other members stays as it is.

- `exists_around`: the text around the value at an address.
- `exists_around_member`: the text around a member of an object.
- `exists_before_last`: the text of an object up to its last member, and of one with a member more.
-/

namespace UpdateFeed.Json

variable {key : String} {keys : List String} {members : Members} {json old found : Json}

/-! ## §1 Members -/

/-- A member in its place: the line break in front of it, its key and its value. -/
def memberChars (level : Nat) (member : String × Json) : List Char :=
  lineBreak level ++ quoted member.1 ++ ':' :: ' ' :: chars level member.2

@[simp] theorem membersChars_nil (level : Nat) : membersChars level [] = [] := rfl

theorem membersChars_cons (level : Nat) (member : String × Json) (members : Members) :
    membersChars level (member :: members) =
      ',' :: memberChars level member ++ membersChars level members := by
  simp [membersChars, memberChars]

theorem membersChars_append (level : Nat) (members others : Members) :
    membersChars level (members ++ others) =
      membersChars level members ++ membersChars level others := by
  induction members with
  | nil => rfl
  | cons member members ih => simp [membersChars_cons, ih]

/-- The text of an object: its members behind one another, and the line break before its end. -/
theorem chars_object_cons (level : Nat) (member : String × Json) (members : Members) :
    chars level (.object (member :: members)) =
      '\x7b' :: memberChars (level + 1) member ++ membersChars (level + 1) members
        ++ (lineBreak level ++ ['\x7d']) := by
  simp [chars, memberChars]

/-- The text around a member of an object is the same whatever the value of the member is. -/
theorem exists_around_member (h : lookup key members = some found) (level : Nat) :
    ∃ before after, ∀ change, chars level (.object (adjust key change members)) =
      before ++ memberChars (level + 1) (key, change found) ++ after := by
  obtain ⟨front, rest, rfl, -, hassign⟩ := exists_of_lookup h
  cases front with
  | nil =>
    refine ⟨['\x7b'], membersChars (level + 1) rest ++ (lineBreak level ++ ['\x7d']),
      fun change => ?_⟩
    rw [adjust_of_lookup h, hassign]
    simp [chars_object_cons]
  | cons first front =>
    -- the member stands behind a comma
    refine ⟨'\x7b' :: memberChars (level + 1) first ++ membersChars (level + 1) front ++ [','],
      membersChars (level + 1) rest ++ (lineBreak level ++ ['\x7d']), fun change => ?_⟩
    rw [adjust_of_lookup h, hassign]
    simp [chars_object_cons, membersChars_append, membersChars_cons]

/-- The text of an object goes as far as its last member, and then comes its end.  A member more
stands between the two, behind a comma. -/
theorem exists_before_last (level : Nat) (others : Members) (last : String × Json) :
    ∃ before, chars level (.object (others ++ [last])) =
        before ++ memberChars (level + 1) last ++ (lineBreak level ++ ['\x7d'])
      ∧ ∀ member, chars level (.object (others ++ [last] ++ [member])) =
        before ++ memberChars (level + 1) last ++ ',' :: memberChars (level + 1) member
          ++ (lineBreak level ++ ['\x7d']) := by
  cases others with
  | nil =>
    refine ⟨['\x7b'], ?_, fun member => ?_⟩
    · simp [chars_object_cons]
    · simp [chars_object_cons, membersChars_cons]
  | cons first others =>
    refine ⟨'\x7b' :: memberChars (level + 1) first ++ membersChars (level + 1) others ++ [','],
      ?_, fun member => ?_⟩
    · simp [chars_object_cons, membersChars_append, membersChars_cons]
    · simp [chars_object_cons, membersChars_append, membersChars_cons]

/-! ## §2 Values at addresses -/

/-- The text around the value at an address is the same whatever the value is. -/
theorem exists_around (h : json.valueAt keys = some old) (level : Nat) :
    ∃ before after, ∀ new, chars level (json.replaceAt keys new) =
      before ++ chars (level + keys.length) new ++ after := by
  induction keys generalizing json level with
  | nil => exact ⟨[], [], fun new => by simp⟩
  | cons key keys ih =>
    obtain ⟨members, found, rfl, hfound, hold⟩ := valueAt_cons_eq_some_iff.mp h
    -- around the member of the first key, and in it around the value further down
    obtain ⟨before, after, hmember⟩ := exists_around_member hfound level
    obtain ⟨inner, outer, hvalue⟩ := ih hold (level + 1)
    refine ⟨before ++ lineBreak (level + 1) ++ quoted key ++ ':' :: ' ' :: inner,
      outer ++ after, fun new => ?_⟩
    rw [replaceAt_object, hmember, memberChars, hvalue]
    simp [Nat.add_assoc, Nat.add_comm 1]

/-- In front of the value of a member stand its line break and its key. -/
theorem exists_around_value {leaf : String} (h : json.valueAt (keys ++ [leaf]) = some old)
    (level : Nat) :
    ∃ before after, ∀ new, chars level (json.replaceAt (keys ++ [leaf]) new) =
      before ++ lineBreak (level + (keys ++ [leaf]).length) ++ quoted leaf ++ [':', ' ']
        ++ chars (level + (keys ++ [leaf]).length) new ++ after := by
  rw [valueAt_append] at h
  obtain ⟨object, hobject, hleaf⟩ := Option.bind_eq_some_iff.mp h
  obtain ⟨members, found, rfl, hfound, -⟩ := valueAt_cons_eq_some_iff.mp hleaf
  obtain ⟨inner, outer, hmember⟩ := exists_around_member hfound (level + keys.length)
  obtain ⟨before, after, haround⟩ := exists_around hobject level
  refine ⟨before ++ inner, outer ++ after, fun new => ?_⟩
  rw [replaceAt_append hobject, replaceAt_object, haround, hmember, memberChars, replaceAt_nil]
  simp [Nat.add_assoc]

end UpdateFeed.Json
