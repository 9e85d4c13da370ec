import UpdateFeed.Proofs.Json.Doubles
import UpdateFeed.Proofs.Reloading

/-!
# Documents with fractions that are loaded again

Every document is loaded again from its own text.  A fraction may come back as one of its neighbours
though, because its digits and its power of ten are rounded one after the other.  So the text stays
as it is exactly when each number is what its own text is read as, and then the document does not
change any more, however often it is loaded and saved.

- `eq_of_chars_mapNumbers`: a change of numbers that keeps the text changes no number.
- `reread_eq_self_iff`, `render_reread_eq_iff`: when a document comes back as it was.
- `exists_reloaded`: a document can be loaded again any number of times.
- `rendered_again`: what becomes of a document that is loaded again from its own text.
-/

namespace UpdateFeed

namespace Json

/-! ## §1 Changes that keep the text -/

/-- The number that the text of a number is read as. -/
def Number.reread (number : Number) : Number :=
  match number.literal.value with
  | .ok value => value
  | .error _ => number

theorem Number.value_reread {number : Number} (h : number.Fits) :
    number.literal.value = .ok number.reread := by
  obtain ⟨value, hvalue⟩ := exists_value h
  rw [reread, hvalue]

/-- Whole numbers, and fractions whose digits and power of ten are doubles, are read back. -/
theorem Number.value_of_isExact {number : Number} (h : number.Fits)
    (hexact : (∃ value, number = .integer value) ∨ number.IsExact) :
    number.literal.value = .ok number := by
  cases number with
  | integer value => exact value_integer h
  | real negative x =>
    rcases hexact with ⟨value, hvalue⟩ | hexact
    · cases hvalue
    · exact value_real_of_exact hexact

/-- Whether what follows a number cannot be taken for a part of it. -/
def IsBoundary (rest : List Char) : Prop :=
  ∀ c ∈ rest.head?, isNumberChar c = false

variable {holds : Number → Prop} {change : Number → Number} {depth level : Nat} {value : Json}
variable {rest rest' : List Char}

theorem isBoundary_lineBreak (level : Nat) (rest : List Char) :
    IsBoundary (lineBreak level ++ rest) := by
  intro c hc
  obtain rfl := Option.some.inj hc
  rfl

theorem isBoundary_itemsChars (h : IsBoundary rest) (level : Nat) (items : List Json) :
    IsBoundary (itemsChars level items ++ rest) := by
  cases items with
  | nil => exact h
  | cons item items =>
    intro c hc
    obtain rfl := Option.some.inj hc
    rfl

theorem isBoundary_membersChars (h : IsBoundary rest) (level : Nat) (members : Members) :
    IsBoundary (membersChars level members ++ rest) := by
  cases members with
  | nil => exact h
  | cons member members =>
    intro c hc
    obtain rfl := Option.some.inj hc
    rfl

/-- Whether a change of the numbers of a value that keeps its text changes none of them. -/
def Cancels (change : Number → Number) (level : Nat) (value : Json) : Prop :=
  ∀ {rest rest'}, IsBoundary rest → IsBoundary rest' →
    chars level (value.mapNumbers change) ++ rest = chars level value ++ rest' →
      (∀ number ∈ value.numbers, change number = number) ∧ rest = rest'

theorem itemsChars_cancel {items : List Json} (hitems : ∀ item ∈ items, Cancels change level item)
    (hrest : IsBoundary rest) (hrest' : IsBoundary rest')
    (h : itemsChars level (itemsMapNumbers change items) ++ rest =
      itemsChars level items ++ rest') :
    (∀ number ∈ itemsNumbers items, change number = number) ∧ rest = rest' := by
  induction items with
  | nil => exact ⟨by simp [itemsNumbers], h⟩
  | cons item items ih =>
    -- behind the comma and the line break both texts go on with the item
    simp only [itemsMapNumbers, itemsChars, List.cons_append, List.append_assoc] at h
    have htexts := List.append_cancel_left (List.cons.inj h).2
    obtain ⟨hfirst, hothers⟩ := hitems item List.mem_cons_self
      (isBoundary_itemsChars hrest level _) (isBoundary_itemsChars hrest' level _) htexts
    obtain ⟨hlast, hends⟩ := ih (fun other hother => hitems other (List.mem_cons_of_mem _ hother))
      hothers
    refine ⟨fun number hnumber => ?_, hends⟩
    rcases List.mem_append.mp hnumber with hnumber | hnumber
    · exact hfirst number hnumber
    · exact hlast number hnumber

theorem membersChars_cancel {members : Members}
    (hmembers : ∀ member ∈ members, Cancels change level member.2)
    (hrest : IsBoundary rest) (hrest' : IsBoundary rest')
    (h : membersChars level (membersMapNumbers change members) ++ rest =
      membersChars level members ++ rest') :
    (∀ number ∈ membersNumbers members, change number = number) ∧ rest = rest' := by
  induction members with
  | nil => exact ⟨by simp [membersNumbers], h⟩
  | cons member members ih =>
    obtain ⟨key, value⟩ := member
    simp only [membersMapNumbers, membersChars, List.cons_append, List.append_assoc] at h
    have hvalues := List.append_cancel_left (List.append_cancel_left (List.cons.inj h).2)
    have htexts := (List.cons.inj (List.cons.inj hvalues).2).2
    -- both texts go on with the first value, and each number in it ends at a boundary
    obtain ⟨hfirst, hothers⟩ := hmembers (key, value) List.mem_cons_self
      (isBoundary_membersChars hrest level _) (isBoundary_membersChars hrest' level _) htexts
    obtain ⟨hlast, hends⟩ := ih
      (fun other hother => hmembers other (List.mem_cons_of_mem _ hother)) hothers
    refine ⟨fun number hnumber => ?_, hends⟩
    rcases List.mem_append.mp hnumber with hnumber | hnumber
    · exact hfirst number hnumber
    · exact hlast number hnumber

/-- In front of other text too, a change of numbers that keeps the text changes none of them. -/
theorem cancels_of_formed (h : Formed holds depth value) (level : Nat) :
    Cancels change level value := by
  induction h generalizing level with
  | null => exact fun _ _ htext => ⟨by simp [numbers], List.append_cancel_left htext⟩
  | boolean => exact fun _ _ htext => ⟨by simp [numbers], List.append_cancel_left htext⟩
  | string => exact fun _ _ htext => ⟨by simp [numbers], List.append_cancel_left htext⟩
  | @number depth number _ =>
    intro rest rest' hrest hrest' htext
    -- a number's text ends where what follows begins, and no other number has this text
    obtain ⟨hnumber, hends⟩ := append_inj_of_boundary Number.isNumberChar_of_mem_chars
      Number.isNumberChar_of_mem_chars hrest hrest' htext
    refine ⟨fun other hother => ?_, hends⟩
    rw [List.mem_singleton.mp hother]
    exact Number.chars_injective hnumber
  | @array depth items hitems ih =>
    intro rest rest' hrest hrest' htext
    cases items with
    | nil => exact ⟨by simp [numbers, itemsNumbers], List.append_cancel_left htext⟩
    | cons item items =>
      -- but for its bracket the text is that of all items with a comma in front
      have htexts : itemsChars (level + 1) (itemsMapNumbers change (item :: items))
            ++ (lineBreak level ++ ']' :: rest) =
          itemsChars (level + 1) (item :: items) ++ (lineBreak level ++ ']' :: rest') := by
        simpa [mapNumbers, itemsMapNumbers, chars, itemsChars] using htext
      obtain ⟨hnumbers, hends⟩ := itemsChars_cancel
        (fun other hother => ih other hother (level + 1))
        (isBoundary_lineBreak level _) (isBoundary_lineBreak level _) htexts
      exact ⟨hnumbers, (List.cons.inj (List.append_cancel_left hends)).2⟩
  | @object depth members _ hmembers ih =>
    intro rest rest' hrest hrest' htext
    cases members with
    | nil => exact ⟨by simp [numbers, membersNumbers], List.append_cancel_left htext⟩
    | cons member members =>
      have htexts : membersChars (level + 1) (membersMapNumbers change (member :: members))
            ++ (lineBreak level ++ '\x7d' :: rest) =
          membersChars (level + 1) (member :: members) ++ (lineBreak level ++ '\x7d' :: rest') := by
        simpa [mapNumbers, membersMapNumbers, chars, membersChars] using htext
      obtain ⟨hnumbers, hends⟩ := membersChars_cancel
        (fun other hother => ih other hother (level + 1))
        (isBoundary_lineBreak level _) (isBoundary_lineBreak level _) htexts
      exact ⟨hnumbers, (List.cons.inj (List.append_cancel_left hends)).2⟩

/-! ## §2 Values whose numbers stay -/

/-- A change of numbers that keeps the text of a value changes none of them. -/
theorem eq_of_chars_mapNumbers (h : Formed holds depth value)
    (htext : chars level (value.mapNumbers change) = chars level value) :
    ∀ number ∈ value.numbers, change number = number := by
  have hend : IsBoundary [] := by simp [IsBoundary]
  have htexts : chars level (value.mapNumbers change) ++ [] = chars level value ++ [] := by
    rw [htext]
  exact (cancels_of_formed h level hend hend htexts).1

/-- Where no number of a value changes the value stays as it is. -/
theorem mapNumbers_eq_self_of_numbers (h : Formed holds depth value)
    (hnumbers : ∀ number ∈ value.numbers, change number = number) :
    value.mapNumbers change = value :=
  mapNumbers_eq_self (h.of_numbers hnumbers) fun _ hnumber => hnumber.2

end Json

namespace Document

open Json

variable {path content : String} {document : Document}

/-! ## §3 Documents that are loaded again -/

/-- Documents with the same text and the same end have the same text of their values. -/
theorem chars_of_render {again : Document} (h : again.render = document.render)
    (hends : again.endsInLineBreak = document.endsInLineBreak) :
    chars 0 again.root = chars 0 document.root := by
  have htexts := congrArg String.toList h
  rw [toList_render, toList_render, hends] at htexts
  exact List.append_cancel_right htexts

/-- A document with each number as its own text is read. -/
def reread (document : Document) : Document :=
  { document with root := document.root.mapNumbers Number.reread }

/-- A document that was loaded is loaded again from its own text. -/
theorem ofText_render_reread (hload : ofText path content = .ok document) :
    ofText path document.render = .ok document.reread := by
  have hform := formed_of_ofText hload
  obtain ⟨root, -, rfl⟩ := ofText_eq_ok_iff.mp hload
  exact ofText_render hform fun number => Number.value_reread

/-- A document is the same one again exactly when each number is what its text is read as. -/
theorem reread_eq_self_iff (h : Formed Number.Fits depthLimit document.root) :
    document.reread = document ↔
      ∀ number ∈ document.root.numbers, number.literal.value = .ok number := by
  constructor
  · intro hsame number hnumber
    have hroot : document.root.mapNumbers Number.reread = document.root := congrArg root hsame
    have hchars : chars 0 (document.root.mapNumbers Number.reread) = chars 0 document.root := by
      rw [hroot]
    rw [Number.value_reread (h.holds_of_mem number hnumber),
      eq_of_chars_mapNumbers h hchars number hnumber]
  · intro hstays
    unfold reread
    rw [mapNumbers_eq_self_of_numbers h]
    intro number hnumber
    unfold Number.reread
    rw [hstays number hnumber]

/-- A document has the same text again exactly when it is the same one. -/
theorem render_reread_eq_iff (h : Formed Number.Fits depthLimit document.root) :
    document.reread.render = document.render ↔ document.reread = document := by
  constructor
  · intro hrender
    have hchars : chars 0 (document.root.mapNumbers Number.reread) = chars 0 document.root :=
      chars_of_render hrender rfl
    unfold reread
    rw [mapNumbers_eq_self_of_numbers h (eq_of_chars_mapNumbers h hchars)]
  · intro hsame
    rw [hsame]

/-- Writes a document and loads it from its text, so many times. -/
def reloaded : Nat → Document → Except DocumentFault Document
  | 0, document => .ok document
  | times + 1, document => ofText document.path document.render >>= reloaded times

/-- A document is loaded again any number of times, and stays the same one if it does once. -/
theorem exists_reloaded (hload : ofText path content = .ok document) (times : Nat) :
    ∃ last, document.reloaded times = .ok last
      ∧ (document.reread = document → last = document) := by
  induction times generalizing content document with
  | zero => exact ⟨document, rfl, fun _ => rfl⟩
  | succ times ih =>
    -- the document's own text is what the next one is loaded from
    have hagain := ofText_render_reread hload
    obtain ⟨last, hlast, hsame⟩ := ih hagain
    refine ⟨last, ?_, ?_⟩
    · obtain ⟨root, -, rfl⟩ := ofText_eq_ok_iff.mp hload
      rw [reloaded, hagain, ok_bind, hlast]
    · intro hstays
      rw [hstays] at hsame
      exact hsame hstays

/-- A document is loaded again from its own text, any number of times.  It has the same text again
exactly when it is the same document, which is the case exactly when each number is what its text
is read as; then it stays the same.  This holds of whole numbers, and of fractions whose digits and
power of ten are doubles themselves. -/
theorem rendered_again (hload : ofText path content = .ok document) :
    ∃ again, ofText path document.render = .ok again
      ∧ (again.render = document.render ↔ again = document)
      ∧ (again = document ↔
        ∀ number ∈ document.root.numbers, number.literal.value = .ok number)
      ∧ (∀ number ∈ document.root.numbers, (∃ value, number = .integer value) ∨ number.IsExact →
        number.literal.value = .ok number)
      ∧ ∀ times, ∃ last, document.reloaded times = .ok last
        ∧ (again = document → last = document) := by
  have hform := formed_of_ofText hload
  have hexact : ∀ number ∈ document.root.numbers,
      (∃ value, number = .integer value) ∨ number.IsExact → number.literal.value = .ok number :=
    fun number hnumber => Number.value_of_isExact (hform.holds_of_mem number hnumber)
  exact ⟨document.reread, ofText_render_reread hload, render_reread_eq_iff hform,
    reread_eq_self_iff hform, hexact, exists_reloaded hload⟩

/-- A fraction of 16 digits whose text is read as the next double. -/
def drifting : Number := .real false ⟨4607067833576432717, by decide⟩

/-- The double after it. -/
def drifted : Number := .real false ⟨4607067833576432718, by decide⟩

/-- A document with this fraction. -/
def driftingDocument : Document where
  path := "feed.json"
  root := .object [("x", .number drifting)]
  endsInLineBreak := false

theorem rendered_again_sample :
    ofText "feed.json" "\x7b\"x\": 0.9872784846494454\x7d" = .ok driftingDocument
      ∧ driftingDocument.render = "\x7b\n  \"x\": 0.9872784846494455\n\x7d"
      ∧ ∃ again, ofText "feed.json" driftingDocument.render = .ok again
        ∧ again.render ≠ driftingDocument.render := by
  have hload : ofText "feed.json" "\x7b\"x\": 0.9872784846494454\x7d" = .ok driftingDocument := by
    rfl
  obtain ⟨again, hagain, hsame, hstays, -⟩ := rendered_again hload
  refine ⟨hload, by rfl, again, hagain, fun hrender => ?_⟩
  have hmember : drifting ∈ driftingDocument.root.numbers := by
    simp [driftingDocument, numbers, membersNumbers]
  have hstays := hstays.mp (hsame.mp hrender) drifting hmember
  have hmoves : drifting.literal.value = .ok drifted := by rfl
  rw [hmoves] at hstays
  exact absurd (Except.ok.inj hstays) (by decide)

end Document

end UpdateFeed
