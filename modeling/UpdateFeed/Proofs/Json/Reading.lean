import UpdateFeed.Proofs.Json.NumberText
import UpdateFeed.Proofs.Json.Strings

/-!
# Reading back printed documents

A value is printed over several lines, with an indentation that depends on its place, and is read
back from there whatever follows it.  Strings, keys and their order come back as they were, and so
does the nesting, since the reader allows what it has read before.  Each number comes back as what
its own text is read as.

- `readValue_chars`: a printed value is read back, with its numbers as they are read.
- `read_chars`: the same for a whole text, with blanks behind it.
- `mapNumbers_eq_self`: numbers that come back as they are leave the value as it is.
-/

namespace UpdateFeed.Json

/-! ## §1 Numbers in their places -/

mutual

/-- A value with its numbers changed. -/
def mapNumbers (change : Number → Number) : Json → Json
  | .null => .null
  | .boolean value => .boolean value
  | .number value => .number (change value)
  | .string text => .string text
  | .array items => .array (itemsMapNumbers change items)
  | .object members => .object (membersMapNumbers change members)

/-- Items with their numbers changed. -/
def itemsMapNumbers (change : Number → Number) : List Json → List Json
  | [] => []
  | item :: items => mapNumbers change item :: itemsMapNumbers change items

/-- Members with the numbers of their values changed. -/
def membersMapNumbers (change : Number → Number) : List (String × Json) → List (String × Json)
  | [] => []
  | (key, value) :: members => (key, mapNumbers change value) :: membersMapNumbers change members

end

theorem itemsMapNumbers_eq (change : Number → Number) (items : List Json) :
    itemsMapNumbers change items = items.map (mapNumbers change) := by
  induction items with
  | nil => rfl
  | cons item items ih => rw [itemsMapNumbers, ih, List.map_cons]

theorem membersMapNumbers_eq (change : Number → Number) (members : Members) :
    membersMapNumbers change members =
      members.map fun member => (member.1, member.2.mapNumbers change) := by
  induction members with
  | nil => rfl
  | cons member members ih => rw [membersMapNumbers, ih, List.map_cons]

variable {holds : Number → Prop} {change : Number → Number} {depth : Nat} {value : Json}

/-- Where no number changes the value stays as it is. -/
theorem mapNumbers_eq_self (h : Formed holds depth value)
    (hchange : ∀ number, holds number → change number = number) :
    value.mapNumbers change = value := by
  induction h with
  | null => rfl
  | boolean => rfl
  | string => rfl
  | number hvalue => rw [mapNumbers, hchange _ hvalue]
  | array _ ih =>
    rw [mapNumbers, itemsMapNumbers_eq]
    rw [List.map_congr_left ih, List.map_id']
  | @object _ members _ _ ih =>
    rw [mapNumbers, membersMapNumbers_eq]
    have hsame : members.map (fun member => (member.1, member.2.mapNumbers change)) =
        members.map id := by
      refine List.map_congr_left fun member hmember => ?_
      rw [ih member hmember]
      rfl
    rw [hsame, List.map_id]

/-! ## §2 Layout -/

theorem skipBlanks_append {blanks : List Char} (h : ∀ c ∈ blanks, isBlank c)
    (rest : List Char) : skipBlanks (blanks ++ rest) = skipBlanks rest :=
  List.dropWhile_append_of_pos h

/-- The blanks of a line break are skipped. -/
theorem skipBlanks_lineBreak (level : Nat) (rest : List Char) :
    skipBlanks (lineBreak level ++ rest) = skipBlanks rest := by
  refine skipBlanks_append (fun c hc => ?_) rest
  rcases List.mem_cons.mp hc with rfl | hc
  · rfl
  · rw [List.eq_of_mem_replicate hc]
    rfl

theorem skipBlanks_skipBlanks (text : List Char) :
    skipBlanks (skipBlanks text) = skipBlanks text := by
  induction text with
  | nil => rfl
  | cons c text ih =>
    cases hblank : isBlank c with
    | true => simpa [skipBlanks, hblank] using ih
    | false => rw [skipBlanks_cons hblank, skipBlanks_cons hblank]

/-- A value is read behind blanks as it is read without them. -/
theorem readValue_of_skipBlanks {text other : List Char} (h : skipBlanks text = skipBlanks other) :
    readValue depth text = readValue depth other := by
  unfold readValue
  rw [h]

/-- A text that is read as a value starts, behind blanks, with something else than a bracket that
closes. -/
theorem exists_start_of_readValue {text rest : List Char}
    (h : readValue depth text = .ok (value, rest)) :
    ∃ c others, skipBlanks text = c :: others ∧ c ≠ ']'
      ∧ readValue depth (c :: others) = .ok (value, rest) := by
  have hstart : readValue depth (skipBlanks text) = .ok (value, rest) := by
    rw [readValue_of_skipBlanks (skipBlanks_skipBlanks text), h]
  cases hblanks : skipBlanks text with
  | nil =>
    rw [hblanks] at hstart
    cases depth <;> cases hstart
  | cons c others =>
    rw [hblanks] at hstart
    refine ⟨c, others, rfl, ?_, hstart⟩
    rintro rfl
    cases depth <;> cases hstart

/-- An item or member in its place: behind a comma, unless it is the first one. -/
def entryText (first : Bool) (text : List Char) : List Char :=
  if first then text else ',' :: text

/-- Reading items up to one that is known. -/
theorem readItems_entry (first : Bool) {item : Json} {text rest : List Char}
    (h : readValue depth text = .ok (item, rest)) (bound : Nat) :
    readItems (readValue depth) (bound + 1) first (entryText first text) =
      (readItems (readValue depth) bound false rest).map fun others =>
        (item :: others.1, others.2) := by
  obtain ⟨c, others, hskip, hbracket, hread⟩ := exists_start_of_readValue h
  -- the first item follows the bracket, any other a comma, and both leave the text of the item
  have hstart : ∀ noComma, ∃ c' others', skipBlanks (entryText first text) = c' :: others'
      ∧ c' ≠ ']' ∧ entryStart first noComma c' others' = .ok (c :: others) := by
    intro noComma
    cases first with
    | true => exact ⟨c, others, hskip, hbracket, rfl⟩
    | false =>
      refine ⟨',', text, rfl, by decide, ?_⟩
      show Except.ok (skipBlanks text) = _
      rw [hskip]
  obtain ⟨c', others', hskip', hbracket', hentry⟩ := hstart .noCommaOrBracket
  rw [readItems_succ, hskip']
  simp only
  rw [hentry, ok_bind, hread, ok_bind]
  split
  · rename_i heq
    cases heq
  · rename_i heq
    exact absurd (List.cons.inj heq).1 hbracket
  · rfl

/-- A key that is new becomes the last one. -/
theorem assign_of_notMem {key : String} {members : Members} (h : key ∉ members.map Prod.fst)
    (new : Json) : assign key new members = members ++ [(key, new)] := by
  fun_induction assign key new members with
  | case1 => rfl
  | case2 old members => simp at h
  | case3 k old members hne ih =>
    rw [ih (fun hmem => h (List.mem_cons_of_mem k hmem))]
    rfl

/-- Reading members up to one that is known. -/
theorem readMembers_entry (first : Bool) (level : Nat) (key : String) {text rest : List Char}
    (h : readValue depth text = .ok (value, rest)) (before : Members) (bound : Nat) :
    readMembers (readValue depth) (bound + 1) first before
        (entryText first (lineBreak level ++ (quoted key ++ ':' :: ' ' :: text))) =
      readMembers (readValue depth) bound false (assign key value before) rest := by
  have hkey : skipBlanks (lineBreak level ++ (quoted key ++ ':' :: ' ' :: text)) =
      '"' :: (key.toList.flatMap escape ++ '"' :: ':' :: ' ' :: text) := by
    rw [skipBlanks_lineBreak, quoted_append, skipBlanks_cons rfl]
  -- as for an item of an array: behind the brace or a comma the key starts
  have hstart : ∃ c others, skipBlanks (entryText first
        (lineBreak level ++ (quoted key ++ ':' :: ' ' :: text))) = c :: others
      ∧ c ≠ '\x7d' ∧ entryStart first .noCommaOrBrace c others =
        .ok ('"' :: (key.toList.flatMap escape ++ '"' :: ':' :: ' ' :: text)) := by
    cases first with
    | true => exact ⟨_, _, hkey, by decide, rfl⟩
    | false =>
      refine ⟨',', _, rfl, by decide, ?_⟩
      show Except.ok (skipBlanks _) = _
      rw [hkey]
  obtain ⟨c, others, hskip, hbrace, hentry⟩ := hstart
  have hcolon : readColon (':' :: ' ' :: text) = .ok ((), ' ' :: text) := rfl
  have hblank : readValue depth (' ' :: text) = .ok (value, rest) := by
    rw [← h]
    exact readValue_of_skipBlanks rfl
  rw [readMembers_succ, hskip]
  simp only
  rw [hentry, ok_bind]
  show (readText _ >>= _) = _
  rw [readText_escaped, ok_bind, hcolon, ok_bind, hblank, ok_bind, String.ofList_toList]

/-! ## §3 Items and members -/

/-- What follows an item or a member does not continue a number. -/
theorem endsNumber_cons {c : Char} (h : c = ',' ∨ c = '\n') (rest : List Char) :
    EndsNumber (c :: rest) := by
  intro other hother
  obtain rfl := Option.some.inj hother
  rcases h with rfl | rfl <;> decide

theorem endsNumber_itemsChars (level last : Nat) (items : List Json) (rest : List Char) :
    EndsNumber (itemsChars level items ++ (lineBreak last ++ rest)) := by
  cases items with
  | nil => exact endsNumber_cons (.inr rfl) _
  | cons item items => exact endsNumber_cons (.inl rfl) _

theorem endsNumber_membersChars (level last : Nat) (members : Members) (rest : List Char) :
    EndsNumber (membersChars level members ++ (lineBreak last ++ rest)) := by
  cases members with
  | nil => exact endsNumber_cons (.inr rfl) _
  | cons member members => exact endsNumber_cons (.inl rfl) _

/-- Whether a printed value is read back, with its numbers changed, from a level of indentation. -/
def ReadsBack (change : Number → Number) (depth level : Nat) (value : Json) : Prop :=
  ∀ rest, EndsNumber rest →
    readValue depth (chars level value ++ rest) = .ok (value.mapNumbers change, rest)

/-- Items that are read back one by one are read back behind one another. -/
theorem readItems_itemsChars (last : Nat) {level : Nat} {items : List Json}
    (hitems : ∀ item ∈ items, ReadsBack change depth level item) {bound : Nat}
    (hbound : items.length < bound) (rest : List Char) :
    readItems (readValue depth) bound false
        (itemsChars level items ++ (lineBreak last ++ ']' :: rest)) =
      .ok (itemsMapNumbers change items, rest) := by
  induction items generalizing bound with
  | nil =>
    obtain ⟨bound, rfl⟩ := Nat.exists_eq_add_of_lt hbound
    show readItems _ (_ + 1) _ (lineBreak last ++ _) = _
    rw [readItems_succ, skipBlanks_lineBreak, skipBlanks_cons rfl]
    rfl
  | cons item items ih =>
    obtain ⟨bound, rfl⟩ := Nat.exists_eq_add_of_lt hbound
    have hitem := hitems item List.mem_cons_self _
      (endsNumber_itemsChars level last items (']' :: rest))
    have hread : readValue depth (lineBreak level ++ (chars level item
        ++ (itemsChars level items ++ (lineBreak last ++ ']' :: rest)))) = _ :=
      (readValue_of_skipBlanks (skipBlanks_lineBreak level _)).trans hitem
    have hothers := ih (fun other hother => hitems other (List.mem_cons_of_mem item hother))
      (show items.length < items.length + 1 + bound by omega)
    -- what is left is the text of one entry, with the other items behind it
    have htext : itemsChars level (item :: items) ++ (lineBreak last ++ ']' :: rest) =
        entryText false (lineBreak level ++ (chars level item
          ++ (itemsChars level items ++ (lineBreak last ++ ']' :: rest)))) := by
      simp [itemsChars, entryText]
    rw [htext, readItems_entry false hread, List.length_cons, hothers]
    rfl

/-- Members whose values are read back one by one are read back behind one another. -/
theorem readMembers_membersChars (last : Nat) {level : Nat} {members : Members}
    (hmembers : ∀ member ∈ members, ReadsBack change depth level member.2) {bound : Nat}
    (hbound : members.length < bound) {before : Members}
    (hkeys : ((before ++ members).map Prod.fst).Nodup) (rest : List Char) :
    readMembers (readValue depth) bound false before
        (membersChars level members ++ (lineBreak last ++ '\x7d' :: rest)) =
      .ok (before ++ membersMapNumbers change members, rest) := by
  induction members generalizing bound before with
  | nil =>
    obtain ⟨bound, rfl⟩ := Nat.exists_eq_add_of_lt hbound
    show readMembers _ (_ + 1) _ _ (lineBreak last ++ _) = _
    rw [readMembers_succ, skipBlanks_lineBreak, skipBlanks_cons rfl]
    rw [membersMapNumbers, List.append_nil]
    rfl
  | cons member members ih =>
    obtain ⟨key, value⟩ := member
    obtain ⟨bound, rfl⟩ := Nat.exists_eq_add_of_lt hbound
    have hread := hmembers (key, value) List.mem_cons_self _
      (endsNumber_membersChars level last members ('\x7d' :: rest))
    -- a key that was not read before becomes the last one
    have hnew : key ∉ before.map Prod.fst := by
      rw [List.map_append, List.map_cons] at hkeys
      intro hmem
      exact (List.nodup_append.mp hkeys).2.2 key hmem key List.mem_cons_self rfl
    have hkeys' : (((before ++ [(key, value.mapNumbers change)]) ++ members).map
        Prod.fst).Nodup := by
      simpa using hkeys
    have hothers := ih (fun other hother => hmembers other (List.mem_cons_of_mem _ hother))
      (show members.length < members.length + 1 + bound by omega) hkeys'
    have htext : membersChars level ((key, value) :: members)
          ++ (lineBreak last ++ '\x7d' :: rest) =
        entryText false (lineBreak level ++ (quoted key ++ ':' :: ' ' :: (chars level value
          ++ (membersChars level members ++ (lineBreak last ++ '\x7d' :: rest))))) := by
      simp [membersChars, entryText]
    rw [htext, readMembers_entry false level key hread, assign_of_notMem hnew, List.length_cons,
      hothers, membersMapNumbers, List.append_assoc]
    rfl

/-! ## §4 Values -/

/-- There is a character for each item. -/
theorem length_le_itemsChars (level : Nat) (items : List Json) :
    items.length ≤ (itemsChars level items).length := by
  induction items with
  | nil => exact Nat.le_refl 0
  | cons item items ih =>
    simp only [itemsChars, List.cons_append, List.length_cons, List.length_append]
    omega

theorem length_le_membersChars (level : Nat) (members : Members) :
    members.length ≤ (membersChars level members).length := by
  induction members with
  | nil => exact Nat.le_refl 0
  | cons member members ih =>
    simp only [membersChars, List.cons_append, List.length_cons, List.length_append]
    omega

/-- An array is read back when its items are. -/
theorem readsBack_array {items : List Json}
    (hitems : ∀ item ∈ items, ∀ level, ReadsBack change depth level item) (level : Nat) :
    ReadsBack change (depth + 1) level (.array items) := by
  intro rest hrest
  cases items with
  | nil => rfl
  | cons item items =>
    have hitem := hitems item List.mem_cons_self (level + 1) _
      (endsNumber_itemsChars (level + 1) level items (']' :: rest))
    have hothers : ∀ other ∈ items, ReadsBack change depth (level + 1) other :=
      fun other hother => hitems other (List.mem_cons_of_mem item hother) (level + 1)
    have hread := (readValue_of_skipBlanks (skipBlanks_lineBreak (level + 1) _)).trans hitem
    -- the length of the text bounds the items, and there is a character for each of them
    have hlength := length_le_itemsChars (level + 1) items
    have htext : chars level (.array (item :: items)) ++ rest =
        '[' :: (lineBreak (level + 1) ++ (chars (level + 1) item
          ++ (itemsChars (level + 1) items ++ (lineBreak level ++ ']' :: rest)))) := by
      simp [chars]
    rw [htext]
    unfold readValue
    rw [skipBlanks_cons rfl]
    show (readItems (readValue depth) (_ + 1) true (entryText true _)).map _ = _
    rw [readItems_entry true hread, readItems_itemsChars level hothers]
    · rfl
    · simp only [List.length_append, List.length_cons]
      omega

/-- An object without repeated keys is read back when its values are. -/
theorem readsBack_object {members : Members} (hkeys : (members.map Prod.fst).Nodup)
    (hmembers : ∀ member ∈ members, ∀ level, ReadsBack change depth level member.2)
    (level : Nat) : ReadsBack change (depth + 1) level (.object members) := by
  intro rest hrest
  cases members with
  | nil => rfl
  | cons member members =>
    obtain ⟨key, value⟩ := member
    have hvalue := hmembers (key, value) List.mem_cons_self (level + 1) _
      (endsNumber_membersChars (level + 1) level members ('\x7d' :: rest))
    have hothers : ∀ other ∈ members, ReadsBack change depth (level + 1) other.2 :=
      fun other hother => hmembers other (List.mem_cons_of_mem _ hother) (level + 1)
    have hkeys' : (([(key, value.mapNumbers change)] ++ members).map Prod.fst).Nodup := by
      simpa using hkeys
    have hlength := length_le_membersChars (level + 1) members
    have htext : chars level (.object ((key, value) :: members)) ++ rest =
        '\x7b' :: (lineBreak (level + 1) ++ (quoted key ++ ':' :: ' ' :: (chars (level + 1) value
          ++ (membersChars (level + 1) members ++ (lineBreak level ++ '\x7d' :: rest))))) := by
      simp [chars]
    rw [htext]
    unfold readValue
    rw [skipBlanks_cons rfl]
    show (readMembers (readValue depth) (_ + 1) true [] (entryText true _)).map _ = _
    rw [readMembers_entry true (level + 1) key hvalue]
    show (readMembers _ _ _ [(key, value.mapNumbers change)] _).map _ = _
    -- the text is longer than the members are many, so the bound is enough
    rw [readMembers_membersChars level hothers ?_ hkeys']
    · rfl
    · simp only [List.length_append, List.length_cons]
      omega

/-- A printed value is read back, with each number as its own text is read. -/
theorem readValue_chars (h : Formed holds depth value)
    (hnumbers : ∀ number, holds number → number.literal.value = .ok (change number))
    (level : Nat) : ReadsBack change depth level value := by
  induction h generalizing level with
  | null =>
    intro rest _
    unfold readValue
    rfl
  | boolean value =>
    intro rest _
    unfold readValue
    cases value <;> rfl
  | number hvalue =>
    intro rest hrest
    exact readValue_number (hnumbers _ hvalue) _ hrest
  | string text =>
    intro rest _
    show readValue _ (quoted text ++ rest) = _
    unfold readValue
    rw [quoted_append, skipBlanks_cons rfl]
    show (readText _).map _ = _
    rw [readText_escaped]
    show Except.ok (Json.string (String.ofList text.toList), rest) = _
    rw [String.ofList_toList]
    rfl
  | array _ ih => exact readsBack_array ih level
  | object hkeys _ ih => exact readsBack_object hkeys ih level

/-- A printed document is read back from its whole text, with blanks behind it. -/
theorem read_chars (h : Formed holds depthLimit value)
    (hnumbers : ∀ number, holds number → number.literal.value = .ok (change number))
    {rest : List Char} (hrest : ∀ c ∈ rest, isBlank c) :
    read (chars 0 value ++ rest) = .ok (value.mapNumbers change) := by
  have hends : EndsNumber rest := by
    intro c hc
    have hblank := hrest c (List.mem_of_mem_head? hc)
    simp only [isBlank, Bool.or_eq_true, decide_eq_true_eq] at hblank
    rcases hblank with ((rfl | rfl) | rfl) | rfl <;> decide
  have hskip : skipBlanks rest = [] := by
    simpa [skipBlanks] using skipBlanks_append hrest []
  unfold read
  rw [readValue_chars h hnumbers 0 rest hends, ok_bind]
  simp only [hskip]

/-- No printed value ends in a line break. -/
theorem getLast?_chars (level : Nat) (value : Json) :
    (chars level value).getLast? ≠ some '\n' := by
  cases value with
  | null => simp [chars]
  | boolean value => cases value <;> simp [chars]
  | number value =>
    intro hlast
    have hchar := Number.isNumberChar_of_mem_chars '\n' (List.mem_of_getLast? hlast)
    exact absurd hchar (by decide)
  | string text =>
    rw [chars, quoted, List.getLast?_concat]
    decide
  | array items =>
    cases items with
    | nil => simp [chars]
    | cons item items =>
      rw [chars, List.getLast?_concat]
      decide
  | object members =>
    cases members with
    | nil => simp [chars]
    | cons member members =>
      rw [chars, List.getLast?_concat]
      decide

end UpdateFeed.Json
