import UpdateFeed.Proofs.Json.Forms

/-!
# Entries of an object

The text of an object is a row of entries, each with a key and a value.  A key may stand in several
of them.  It is a member then in the place of the first one, with the value of the last one.

- `EntriesAt`: the entries of a text, up to the end of the object.
- `keys_collect`, `lookup_collect`: the keys and the values of the members.
- `ofEntries_of_readValue`: an object that is read has the members of its entries.
-/

namespace UpdateFeed.Json

variable {depth bound : Nat} {first : Bool} {text inside start rest : List Char}
  {before members : Members}

/-! ## §1 Members of entries -/

/-- The members that entries make: each entry writes its value, one after the other. -/
def collect (entries : Members) : Members :=
  entries.foldl (fun members entry => assign entry.1 entry.2 members) []

theorem collect_concat (entries : Members) (entry : String × Json) :
    collect (entries ++ [entry]) = assign entry.1 entry.2 (collect entries) := by
  simp [collect]

/-- Each key has the place of the first entry with it. -/
theorem keys_collect (entries : Members) :
    (collect entries).map Prod.fst = (entries.map Prod.fst).eraseDups := by
  induction entries using List.reverseRecOn with
  | nil => rfl
  | append_singleton entries entry ih =>
    rw [collect_concat, keys_assign, ih, List.map_append, List.eraseDups_append]
    -- the key of the last entry is a new one, or is there already
    by_cases hkey : entry.1 ∈ entries.map Prod.fst
    · rw [if_pos (List.mem_eraseDups.mpr hkey)]
      simp [List.removeAll, hkey]
    · rw [if_neg fun h => hkey (List.mem_eraseDups.mp h)]
      simp [List.removeAll, hkey, List.eraseDups_cons]

/-- Each key has the value of the last entry with it. -/
theorem lookup_collect (key : String) (entries : Members) :
    lookup key (collect entries) = lookup key entries.reverse := by
  induction entries using List.reverseRecOn with
  | nil => rfl
  | append_singleton entries entry ih =>
    obtain ⟨last, value⟩ := entry
    rw [collect_concat, List.reverse_append]
    by_cases hkey : last = key
    · subst hkey
      simp [lookup]
    · rw [lookup_assign_of_ne hkey, ih]
      simp [lookup, hkey]

/-! ## §2 Entries of a text -/

/-- Where the key of an entry starts: behind a comma, unless the entry is the first one, and behind
its quote. -/
inductive EntryAt : Bool → List Char → List Char → Prop
  | first {text inside : List Char} (quote : skipBlanks text = '"' :: inside) :
      EntryAt true text inside
  | later {text between inside : List Char} (comma : skipBlanks text = ',' :: between)
      (quote : skipBlanks between = '"' :: inside) : EntryAt false text inside

/-- The entries that stand in a text before the end of an object, and the text behind it.  Their
values nest as deep as is said. -/
inductive EntriesAt (depth : Nat) : Bool → List Char → Members → List Char → Prop
  | close {first : Bool} {text rest : List Char} (brace : skipBlanks text = '\x7d' :: rest) :
      EntriesAt depth first text [] rest
  | entry {first : Bool} {text inside key afterKey afterColon afterValue rest : List Char}
      {value : Json} {entries : Members} (start : EntryAt first text inside)
      (readKey : readText inside = .ok (key, afterKey))
      (colon : skipBlanks afterKey = ':' :: afterColon)
      (readMember : readValue depth afterColon = .ok (value, afterValue))
      (others : EntriesAt depth false afterValue entries rest) :
      EntriesAt depth first text ((String.ofList key, value) :: entries) rest

/-- An entry that starts with a quote is one with a key. -/
theorem entryAt_of_entryStart {fault : Fault} {c : Char} (htext : skipBlanks text = c :: rest)
    (h : entryStart first fault c rest = .ok ('"' :: inside)) : EntryAt first text inside := by
  cases first with
  | true => exact .first (htext.trans (Except.ok.inj h))
  | false =>
    by_cases hcomma : c = ','
    · subst hcomma
      exact .later htext (Except.ok.inj h)
    · simp [entryStart, hcomma, failAfter] at h

theorem skipBlanks_of_readColon {answer : Unit × List Char} (h : readColon text = .ok answer) :
    skipBlanks text = ':' :: answer.2 := by
  unfold readColon at h
  split at h
  · simp [failBefore] at h
  · rename_i hcolon
    obtain rfl := Except.ok.inj h
    exact hcolon
  · simp [failAfter] at h

/-- What is read as members are the entries of the text, written into the members before. -/
theorem exists_entries_of_readMembers
    (h : readMembers (readValue depth) bound first before text = .ok (members, rest)) :
    ∃ entries, EntriesAt depth first text entries rest
      ∧ members = entries.foldl (fun members entry => assign entry.1 entry.2 members) before := by
  induction bound generalizing first before text with
  | zero => simp [readMembers, failBefore] at h
  | succ bound ih =>
    rw [readMembers_succ] at h
    split at h
    · simp [failBefore] at h
    · rename_i hbrace
      obtain ⟨rfl, rfl⟩ := Prod.mk.inj (Except.ok.inj h)
      exact ⟨[], .close hbrace, rfl⟩
    · rename_i htext
      obtain ⟨start, hstart, h⟩ := exists_of_bind_eq_ok h
      split at h
      · simp [failBefore] at h
      · obtain ⟨⟨key, afterKey⟩, hkey, h⟩ := exists_of_bind_eq_ok h
        obtain ⟨colon, hcolon, h⟩ := exists_of_bind_eq_ok h
        obtain ⟨⟨value, afterValue⟩, hvalue, h⟩ := exists_of_bind_eq_ok h
        -- the turns that follow read the other entries
        obtain ⟨entries, hentries, rfl⟩ := ih h
        exact ⟨(String.ofList key, value) :: entries,
          .entry (entryAt_of_entryStart htext hstart) hkey (skipBlanks_of_readColon hcolon) hvalue
            hentries, rfl⟩
      · simp [failAfter] at h
      · simp [failAfter] at h

/-- Whether members are those of the entries of an object in a text: the keys in the order in which
they come first, each with the value that it has last. -/
def OfEntries (depth : Nat) (text : List Char) (members : Members) (rest : List Char) : Prop :=
  ∃ below inside entries, depth = below + 1 ∧ skipBlanks text = '\x7b' :: inside
    ∧ EntriesAt below true inside entries rest
    ∧ members.map Prod.fst = (entries.map Prod.fst).eraseDups
    ∧ ∀ key, lookup key members = lookup key entries.reverse

/-- An object that is read has the members of its entries. -/
theorem ofEntries_of_readValue (h : readValue depth text = .ok (.object members, rest)) :
    OfEntries depth text members rest := by
  unfold readValue at h
  split at h
  case h_7 => cases depth <;> simp [failAfter, map_eq_ok] at h
  case h_8 =>
    rename_i inside hbrace
    cases depth with
    | zero => simp [failAfter] at h
    | succ below =>
      obtain ⟨⟨found, last⟩, hmembers, hsame⟩ := map_eq_ok.mp h
      obtain ⟨hobject, rfl⟩ := Prod.mk.inj hsame
      obtain rfl := Json.object.inj hobject
      obtain ⟨entries, hentries, rfl⟩ := exists_entries_of_readMembers hmembers
      exact ⟨below, inside, entries, rfl, hbrace, hentries, keys_collect entries,
        fun key => lookup_collect key entries⟩
  case h_9 => simp [failAfter, map_eq_ok, ite_eq_iff] at h
  -- what starts otherwise is no object
  all_goals simp [failBefore, map_eq_ok] at h

end UpdateFeed.Json
