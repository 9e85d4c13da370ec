import Mathlib.Data.Option.Basic
import Mathlib.Data.List.Infix
import Mathlib.Data.List.Nodup
import UpdateFeed.Json.Basic

/-!
# Rewriting string members

A document after edits is compared with the document before through two views: the value at an
address, which is a list of keys from the root down, and the keys of the object at an address.

`Rewritten texts before after` says that exactly the addresses in `texts` were given new strings.
Every address that is neither above nor below one of them keeps its value, and every object that is
still there keeps its keys in their order.  Behind them stand the keys that it did not have, each of
them once.

- `rewritten_putString`: one edit rewrites one address.
- `exists_object_of_putString`: an edit is for an object.
- `Rewritten.trans`: edits one after the other rewrite what each of them rewrites.
- `Rewritten.object_iff`: where there are objects.
- `putString_of_valueAt`: a string that is there already is no change.
-/

namespace UpdateFeed.Json

/-! ## §1 Values and keys at addresses -/

/-- The value at a list of keys, from the root down. -/
def valueAt : List String → Json → Option Json
  | [], json => some json
  | key :: keys, json => (json.member? key).bind (valueAt keys)

/-- The keys of an object, in order. -/
def keys? : Json → Option (List String)
  | .object members => some (members.map Prod.fst)
  | _ => none

/-- The keys of the object at an address, in order. -/
def keysAt (address : List String) (json : Json) : Option (List String) :=
  (json.valueAt address).bind keys?

@[simp] theorem valueAt_nil (json : Json) : json.valueAt [] = some json := rfl

@[simp] theorem valueAt_cons (key : String) (keys : List String) (members : Members) :
    valueAt (key :: keys) (.object members) = (lookup key members).bind (valueAt keys) := rfl

theorem valueAt_assign_self (key : String) (keys : List String) (value : Json)
    (members : Members) :
    valueAt (key :: keys) (.object (assign key value members)) = value.valueAt keys := by
  simp

theorem valueAt_assign_of_ne {key other : String} (h : key ≠ other) (keys : List String)
    (value : Json) (members : Members) :
    valueAt (other :: keys) (.object (assign key value members)) =
      valueAt (other :: keys) (.object members) := by
  simp [lookup_assign_of_ne h]

theorem mem_keys_of_lookup {key : String} {value : Json} {members : Members}
    (h : lookup key members = some value) : key ∈ members.map Prod.fst := by
  fun_induction lookup key members with
  | case1 => simp at h
  | case2 => simp
  | case3 k other members hne ih => simp [ih h]

/-! ## §2 What a rewriting keeps -/

/-- The strings that a rewriting gives to addresses. -/
abbrev Texts := List (List String × String)

/-- Whether the keys of the object at an address are the old ones, in their order, and behind them
those that were given strings and are not among the old ones, each of them once. -/
def Extends (texts : Texts) (address old new : List String) : Prop :=
  ∃ added, new = old ++ added ∧ added.Nodup ∧ added.Disjoint old
    ∧ ∀ key ∈ added, ∃ text, (address ++ [key], text) ∈ texts

/-- What a document is after the addresses in `texts` were given their strings, and nothing else was
changed. -/
structure Rewritten (texts : Texts) (before after : Json) : Prop where
  /-- Each address in `texts` has its string. -/
  written : ∀ address text, (address, text) ∈ texts →
    after.valueAt address = some (.string text)
  /-- Each address apart from them has its former value. -/
  kept : ∀ address, (∀ place text, (place, text) ∈ texts →
      ¬ place <+: address ∧ ¬ address <+: place) →
    after.valueAt address = before.valueAt address
  /-- Each object that is not within a new string has its former keys, in their order, and behind
  them the new ones among those that were given strings. -/
  ordered : ∀ address, (∀ place text, (place, text) ∈ texts → ¬ place <+: address) →
    Option.Rel (Extends texts address) (before.keysAt address) (after.keysAt address)

theorem extends_refl (texts : Texts) (address : List String) (keys? : Option (List String)) :
    Option.Rel (Extends texts address) keys? keys? := by
  cases keys? with
  | none => exact .none
  | some keys => exact .some ⟨[], by simp, .nil, List.disjoint_nil_left keys, by simp⟩

/-- Keys that are added behind keys that were added before. -/
theorem Extends.trans {first second : Texts} {address old middle new : List String}
    (h₁ : Extends first address old middle) (h₂ : Extends second address middle new) :
    Extends (first ++ second) address old new := by
  obtain ⟨added, rfl, hnodup, hnew, hadded⟩ := h₁
  obtain ⟨more, rfl, hnodup', hnew', hmore⟩ := h₂
  -- a later key is new to the old keys, and to those that were added first
  obtain ⟨hold, hbetween⟩ := List.disjoint_append_right.mp hnew'
  refine ⟨added ++ more, List.append_assoc _ _ _,
    hnodup.append hnodup' (List.disjoint_comm.mp hbetween),
    List.disjoint_append_left.mpr ⟨hnew, hold⟩, fun key hkey => ?_⟩
  rcases List.mem_append.mp hkey with hkey | hkey
  · obtain ⟨text, h⟩ := hadded key hkey
    exact ⟨text, List.mem_append_left _ h⟩
  · obtain ⟨text, h⟩ := hmore key hkey
    exact ⟨text, List.mem_append_right _ h⟩

theorem Rewritten.refl (json : Json) : Rewritten [] json json where
  written _ _ h := by simp at h
  kept _ _ := rfl
  ordered address _ := extends_refl [] address _

/-- Whether no text of `second` undoes one of `first`: addresses of which one leads to the other are
the same and are given the same string. -/
def Agree (first second : Texts) : Prop :=
  ∀ place text other text', (place, text) ∈ first → (other, text') ∈ second →
    place <+: other ∨ other <+: place → place = other ∧ text = text'

/-- Rewritings one after the other. -/
theorem Rewritten.trans {first second : Texts} {before between after : Json}
    (h₁ : Rewritten first before between) (h₂ : Rewritten second between after)
    (agree : Agree first second) : Rewritten (first ++ second) before after where
  written address text h := by
    rcases List.mem_append.mp h with h | h
    · -- either the second rewriting repeats the string, or it leaves the address alone
      by_cases hcut : ∃ other text', (other, text') ∈ second ∧
          (other <+: address ∨ address <+: other)
      · obtain ⟨other, text', hmem, hcut⟩ := hcut
        obtain ⟨rfl, rfl⟩ := agree _ _ _ _ h hmem hcut.symm
        exact h₂.written _ _ hmem
      · rw [h₂.kept address fun place text' hmem =>
          ⟨fun hp => hcut ⟨place, text', hmem, .inl hp⟩,
            fun hp => hcut ⟨place, text', hmem, .inr hp⟩⟩]
        exact h₁.written _ _ h
    · exact h₂.written _ _ h
  kept address apart := by
    rw [h₂.kept address fun place text h => apart place text (List.mem_append_right _ h)]
    exact h₁.kept address fun place text h => apart place text (List.mem_append_left _ h)
  ordered address apart := by
    have hfirst := h₁.ordered address fun place text h =>
      apart place text (List.mem_append_left _ h)
    have hsecond := h₂.ordered address fun place text h =>
      apart place text (List.mem_append_right _ h)
    revert hfirst hsecond
    generalize before.keysAt address = old
    generalize between.keysAt address = middle
    generalize after.keysAt address = new
    intro hfirst hsecond
    cases hfirst with
    | none => cases hsecond with | none => exact .none
    | some hfirst => cases hsecond with | some hsecond => exact .some (hfirst.trans hsecond)

/-- The keys of an object are those of some members. -/
theorem isSome_keysAt_iff {address : List String} {json : Json} :
    (json.keysAt address).isSome ↔ ∃ members, json.valueAt address = some (.object members) := by
  unfold keysAt
  cases json.valueAt address with
  | none => simp
  | some value => cases value <;> simp [keys?]

/-- Behind a rewriting the objects that are not within a new string are where they were. -/
theorem Rewritten.object_iff {texts : Texts} {before after : Json}
    (h : Rewritten texts before after) {address : List String}
    (apart : ∀ place text, (place, text) ∈ texts → ¬ place <+: address) :
    (∃ members, after.valueAt address = some (.object members)) ↔
      ∃ members, before.valueAt address = some (.object members) := by
  rw [← isSome_keysAt_iff, ← isSome_keysAt_iff]
  have hordered := h.ordered address apart
  revert hordered
  generalize before.keysAt address = old
  generalize after.keysAt address = new
  intro hordered
  cases hordered <;> simp

/-! ## §3 One edit -/

/-- A string member of the root. -/
private theorem rewritten_assign (leaf text : String) (members : Members) :
    Rewritten [([leaf], text)] (.object members)
      (.object (assign leaf (.string text) members)) where
  written address text' h := by
    obtain ⟨rfl, rfl⟩ : address = [leaf] ∧ text' = text := by simpa using h
    simp
  kept address apart := by
    obtain ⟨hbelow, habove⟩ := apart [leaf] text (by simp)
    -- an address apart from the member begins with another key
    cases address with
    | nil => exact absurd List.nil_prefix habove
    | cons key keys =>
      have hne : leaf ≠ key := by
        rintro rfl
        exact hbelow ⟨keys, rfl⟩
      exact valueAt_assign_of_ne hne _ _ _
  ordered address apart := by
    cases address with
    | nil =>
      -- a member that is there keeps its place, and a new one is the last
      simp only [keysAt, valueAt_nil, Option.bind_some, keys?, keys_assign]
      split
      · exact extends_refl _ _ (some _)
      · rename_i hnew
        exact .some ⟨[leaf], rfl, List.nodup_singleton leaf, List.singleton_disjoint.mpr hnew,
          by simp⟩
    | cons key keys =>
      have hne : leaf ≠ key := by
        rintro rfl
        exact apart [leaf] text (by simp) ⟨keys, rfl⟩
      rw [keysAt, keysAt, valueAt_assign_of_ne hne]
      exact extends_refl _ _ _

/-- The keys of an object, seen from the object above it. -/
private theorem extends_below (key : String) {place address : List String} {text : String}
    {old? new? : Option (List String)}
    (h : Option.Rel (Extends [(place, text)] address) old? new?) :
    Option.Rel (Extends [(key :: place, text)] (key :: address)) old? new? := by
  cases h with
  | none => exact .none
  | some h =>
    obtain ⟨added, hkeys, hnodup, hnew, hadded⟩ := h
    refine .some ⟨added, hkeys, hnodup, hnew, fun k hk => ?_⟩
    obtain ⟨text', hmem⟩ := hadded k hk
    exact ⟨text', by simpa using hmem⟩

/-- A rewriting of the value of a member. -/
private theorem Rewritten.below {key : String} {place : List String} {text : String}
    {value changed : Json} {members : Members} (hvalue : lookup key members = some value)
    (h : Rewritten [(place, text)] value changed) :
    Rewritten [(key :: place, text)] (.object members)
      (.object (assign key changed members)) where
  written address text' hmem := by
    obtain ⟨rfl, rfl⟩ : address = key :: place ∧ text' = text := by simpa using hmem
    rw [valueAt_assign_self]
    exact h.written _ _ (by simp)
  kept address apart := by
    obtain ⟨hbelow, habove⟩ := apart (key :: place) text (by simp)
    cases address with
    | nil => exact absurd List.nil_prefix habove
    | cons other keys =>
      by_cases hkey : key = other
      · -- below the member, the value is what was rewritten
        subst hkey
        rw [valueAt_assign_self, valueAt_cons, hvalue, Option.bind_some]
        refine h.kept keys fun place' text' hmem => ?_
        obtain ⟨rfl, rfl⟩ : place' = place ∧ text' = text := by simpa using hmem
        simpa using And.intro hbelow habove
      · exact valueAt_assign_of_ne hkey _ _ _
  ordered address apart := by
    have hbelow := apart (key :: place) text (by simp)
    cases address with
    | nil =>
      simp only [keysAt, valueAt_nil, Option.bind_some, keys?, keys_assign]
      rw [if_pos (mem_keys_of_lookup hvalue)]
      exact extends_refl _ _ (some _)
    | cons other keys =>
      by_cases hkey : key = other
      · subst hkey
        rw [keysAt, keysAt, valueAt_assign_self, valueAt_cons, hvalue, Option.bind_some]
        have hkeys := h.ordered keys fun place' text' hmem => by
          obtain ⟨rfl, rfl⟩ : place' = place ∧ text' = text := by simpa using hmem
          simpa using hbelow
        exact extends_below key hkeys
      · rw [keysAt, keysAt, valueAt_assign_of_ne hkey]
        exact extends_refl _ _ _

/-- An edit rewrites the address of its member. -/
theorem rewritten_putString {leaf text : String} {keys : List String} {before after : Json}
    (h : putString leaf text keys before = .ok after) :
    Rewritten [(keys ++ [leaf], text)] before after := by
  fun_induction putString leaf text keys before generalizing after with
  | case1 members =>
    obtain rfl : Json.object (assign leaf (.string text) members) = after := by simpa using h
    exact rewritten_assign leaf text members
  | case2 => simp at h
  | case3 key keys members value hvalue changed hchanged ih =>
    obtain rfl : Json.object (assign key changed members) = after := by simpa using h
    exact (ih hchanged).below hvalue
  | case4 => simp at h
  | case5 => simp at h

/-- An edit succeeds only where there is an object for it. -/
theorem exists_object_of_putString {leaf text : String} {keys : List String}
    {before after : Json} (h : putString leaf text keys before = .ok after) :
    ∃ members, before.valueAt keys = some (.object members) := by
  fun_induction putString leaf text keys before generalizing after with
  | case1 members => exact ⟨members, rfl⟩
  | case2 => cases h
  | case3 key keys members value hvalue changed hchanged ih =>
    obtain ⟨found, hfound⟩ := ih hchanged
    refine ⟨found, ?_⟩
    rw [valueAt_cons, hvalue, Option.bind_some, hfound]
  | case4 => cases h
  | case5 => cases h

/-! ## §4 Strings that are there already -/

theorem assign_assign (key : String) (first second : Json) (members : Members) :
    assign key second (assign key first members) = assign key second members := by
  fun_induction assign key first members with
  | case1 => simp [assign]
  | case2 old members => simp [assign]
  | case3 k old members hne ih => simp [assign, hne, ih]

theorem assign_of_lookup {key : String} {value : Json} {members : Members}
    (h : lookup key members = some value) : assign key value members = members := by
  fun_induction lookup key members with
  | case1 => simp at h
  | case2 found members =>
    obtain rfl := Option.some.inj h
    simp [assign]
  | case3 k found members hne ih => simp [assign, hne, ih h]

/-- A key that is there is assigned in its place. -/
theorem exists_of_lookup {key : String} {value : Json} {members : Members}
    (h : lookup key members = some value) :
    ∃ front rest, members = front ++ (key, value) :: rest ∧ key ∉ front.map Prod.fst
      ∧ ∀ other, assign key other members = front ++ (key, other) :: rest := by
  fun_induction lookup key members with
  | case1 => simp at h
  | case2 found members =>
    obtain rfl := Option.some.inj h
    exact ⟨[], members, rfl, by simp, fun other => by simp [assign]⟩
  | case3 k found members hne ih =>
    obtain ⟨front, rest, rfl, hfront, hassign⟩ := ih h
    refine ⟨(k, found) :: front, rest, rfl, ?_, fun other => ?_⟩
    · simpa [Ne.symm hne] using hfront
    · rw [assign, if_neg hne, hassign, List.cons_append]

/-- Writing the string that an address has changes nothing. -/
theorem putString_of_valueAt {keys : List String} {leaf text : String} {json : Json}
    (h : json.valueAt (keys ++ [leaf]) = some (.string text)) :
    putString leaf text keys json = .ok json := by
  induction keys generalizing json with
  | nil =>
    obtain ⟨value, hvalue, hsame⟩ := Option.bind_eq_some_iff.mp h
    obtain rfl : value = .string text := Option.some.inj hsame
    cases json with
    | object members => rw [putString, assign_of_lookup hvalue]
    | _ => cases hvalue
  | cons key keys ih =>
    obtain ⟨value, hvalue, hrest⟩ := Option.bind_eq_some_iff.mp h
    cases json with
    | object members =>
      have hlookup : lookup key members = some value := hvalue
      -- the member below is as it was, so it is put back as it was
      rw [putString, hlookup]
      dsimp only
      rw [ih hrest]
      dsimp only
      rw [assign_of_lookup hlookup]
    | _ => cases hvalue

end UpdateFeed.Json
