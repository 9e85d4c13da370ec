import UpdateFeed.Json.Number

/-!
# JSON documents

A document is a value; an object lists its members in the order of the text.  `Json.assign` writes
a member: in its place when the key is there, at the end otherwise.  `Json.putString` writes a
string below a list of keys, each of which has to lead to an object.

- `lookup_assign_self`, `lookup_assign_of_ne`: what a write does to the members.
- `keys_assign`: the keys after a write.
-/

namespace UpdateFeed

/-! ## §1 Values -/

/-- A JSON value. -/
inductive Json where
  | null
  | boolean (value : Bool)
  | number (value : Json.Number)
  | string (value : String)
  | array (items : List Json)
  | object (members : List (String × Json))
  deriving Repr, Inhabited

namespace Json

/-- The members of an object, in order. -/
abbrev Members := List (String × Json)

/-- The value of a key. -/
def lookup (key : String) : Members → Option Json
  | [] => none
  | (k, value) :: members => if k = key then some value else lookup key members

/-- Gives a key a value: in place if the key is there, as the last member otherwise. -/
def assign (key : String) (value : Json) : Members → Members
  | [] => [(key, value)]
  | (k, old) :: members =>
    if k = key then (key, value) :: members else (k, old) :: assign key value members

@[simp] theorem lookup_assign_self (key : String) (value : Json) (members : Members) :
    lookup key (assign key value members) = some value := by
  fun_induction assign key value members with
  | case1 => simp [lookup]
  | case2 => simp [lookup]
  | case3 k old members hne ih => simp [lookup, hne, ih]

theorem lookup_assign_of_ne {key other : String} (h : key ≠ other) (value : Json)
    (members : Members) : lookup other (assign key value members) = lookup other members := by
  fun_induction assign key value members with
  | case1 => simp [lookup, h]
  | case2 old members => simp [lookup, h]
  | case3 k old members hne ih => simp [lookup, ih]

/-- A write keeps the order of the keys; a new key is the last one. -/
theorem keys_assign (key : String) (value : Json) (members : Members) :
    (assign key value members).map Prod.fst =
      if key ∈ members.map Prod.fst then members.map Prod.fst
      else members.map Prod.fst ++ [key] := by
  fun_induction assign key value members with
  | case1 => simp
  | case2 old members => simp
  | case3 k old members hne ih =>
    have hne' : key ≠ k := fun h => hne h.symm
    simp only [List.map_cons, ih, List.mem_cons, hne', false_or]
    split <;> simp

/-! ## §2 Addresses -/

/-- Why an address does not lead to an object.  The keys are those from the root down to the place
of the fault. -/
inductive AddressFault where
  /-- The value at these keys is not an object. -/
  | noObject (keys : List String)
  /-- The last of these keys is missing in the object at the others. -/
  | noMember (keys : List String)
  deriving DecidableEq, Repr

/-- The same fault, seen from the object that holds `key`. -/
def AddressFault.below (key : String) : AddressFault → AddressFault
  | .noObject keys => .noObject (key :: keys)
  | .noMember keys => .noMember (key :: keys)

/-- The members of the object at a list of keys. -/
def objectAt : List String → Json → Except AddressFault Members
  | [], .object members => .ok members
  | key :: keys, .object members =>
    match lookup key members with
    | none => .error (.noMember [key])
    | some value => (objectAt keys value).mapError (·.below key)
  | _, _ => .error (.noObject [])

/-- Writes a string member into the object at a list of keys. -/
def putString (leaf text : String) : List String → Json → Except AddressFault Json
  | [], .object members => .ok (.object (assign leaf (.string text) members))
  | key :: keys, .object members =>
    match lookup key members with
    | none => .error (.noMember [key])
    | some value =>
      match putString leaf text keys value with
      | .ok changed => .ok (.object (assign key changed members))
      | .error fault => .error (fault.below key)
  | _, _ => .error (.noObject [])

/-- The text of a string value. -/
def text? : Json → Option String
  | .string text => some text
  | _ => none

/-- The value of a key, if the value is an object with that key. -/
def member? (key : String) : Json → Option Json
  | .object members => lookup key members
  | _ => none

end Json

end UpdateFeed
