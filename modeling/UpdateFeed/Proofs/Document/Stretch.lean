import UpdateFeed.Proofs.Document
import UpdateFeed.Proofs.Json.Layout
import UpdateFeed.Proofs.Reloading

/-!
# What an edit changes in a text

An edit changes one stretch of the text of a document.  For a member that is there the stretch is
its value; for a new one it is the place behind the last member of its object.  All text in front of
the stretch and behind it stays as it is, so a file that holds the text of a document is changed by
an edit in that stretch only.

- `Surrounds`: the text around an address, whatever value is there.
- `DiffersIn`: documents, and then also their files, that differ in one stretch.
- `render_putString`: the stretch that an edit changes.
-/

namespace UpdateFeed.Document

open Json

variable {document changed : Document} {keys address : List String} {leaf text : String}
  {front old new rest : List Char}

/-! ## §1 Stretches of a text -/

/-- Whether texts stand in front of the value at an address and behind it, whatever the value is. -/
def Surrounds (document : Document) (address : List String) (front rest : List Char) : Prop :=
  ∀ new, ({ document with root := document.root.replaceAt address new } : Document).render =
    String.ofList (front ++ chars address.length new ++ rest)

/-- Whether a changed document has another text in one stretch and the same text in front of it and
behind it, and whether saving it changes a file that holds the text of the document likewise. -/
structure DiffersIn (front old new rest : List Char) (document changed : Document) : Prop where
  before : document.render = String.ofList (front ++ old ++ rest)
  after : changed.render = String.ofList (front ++ new ++ rest)
  saved : ∀ files files', files.readText document.path = .ok document.render →
    changed.save files = .ok files' →
      files.readText document.path = .ok (String.ofList (front ++ old ++ rest))
        ∧ FileSystem.Replaces document.path (String.ofList (front ++ new ++ rest)) files files'

theorem differsIn_of_render (hpath : changed.path = document.path)
    (before : document.render = String.ofList (front ++ old ++ rest))
    (after : changed.render = String.ofList (front ++ new ++ rest)) :
    DiffersIn front old new rest document changed where
  before := before
  after := after
  saved files files' hfile hsave := by
    refine ⟨hfile.trans (congrArg _ before), ?_⟩
    rw [← after, ← hpath]
    exact replaces_of_save hsave

/-- The text of a document that ends as another one does. -/
theorem render_eq_ofList (document : Document) : document.render =
    String.ofList (chars 0 document.root ++ if document.endsInLineBreak then ['\n'] else []) := by
  rw [← toList_render, String.ofList_toList]

/-- There is text around every value. -/
theorem exists_surrounds {value : Json} (h : document.root.valueAt address = some value) :
    ∃ front rest, document.Surrounds address front rest := by
  obtain ⟨before, after, haround⟩ := exists_around h 0
  refine ⟨before, after ++ if document.endsInLineBreak then ['\n'] else [], fun new => ?_⟩
  rw [render_eq_ofList]
  simp [haround]

/-- In front of the value of a member stand its line break and its key. -/
theorem exists_surrounds_member {value : Json}
    (h : document.root.valueAt (keys ++ [leaf]) = some value) :
    ∃ front rest, document.Surrounds (keys ++ [leaf])
      (front ++ lineBreak (keys.length + 1) ++ quoted leaf ++ [':', ' ']) rest := by
  obtain ⟨before, after, haround⟩ := exists_around_value h 0
  refine ⟨before, after ++ if document.endsInLineBreak then ['\n'] else [], fun new => ?_⟩
  rw [render_eq_ofList]
  simp [haround]

/-- A value that takes the place of another one changes the stretch between the texts around it. -/
theorem Surrounds.differsIn (h : document.Surrounds address front rest) {value : Json}
    (hvalue : document.root.valueAt address = some value) (new : Json) :
    DiffersIn front (chars address.length value) (chars address.length new) rest document
      { document with root := document.root.replaceAt address new } := by
  refine differsIn_of_render rfl ?_ (h new)
  -- the value itself is surrounded by the same texts
  have hsame := h value
  rwa [replaceAt_of_valueAt hvalue] at hsame

/-! ## §2 The stretch of an edit -/

/-- An edit changes one stretch of the text.  Where the member is there, it is its value; where the
member is new, it is the place behind the last member of the object, or the whole object if that is
empty.  A file with the text of the document is changed in this stretch only. -/
theorem render_putString (h : document.putString keys leaf text = .ok changed) :
    ∃ members, document.root.valueAt keys = some (.object members)
      ∧ (∀ old, lookup leaf members = some old → ∃ front rest,
        let start := front ++ lineBreak (keys.length + 1) ++ quoted leaf ++ [':', ' ']
        document.Surrounds (keys ++ [leaf]) start rest
          ∧ DiffersIn start (chars (keys.length + 1) old) (quoted text) rest document changed)
      ∧ (lookup leaf members = none → ∀ others last, members = others ++ [last] →
        ∃ front object rest,
          document.Surrounds keys front rest
            ∧ chars keys.length (.object members) =
              object ++ memberChars (keys.length + 1) last ++ (lineBreak keys.length ++ ['\x7d'])
            ∧ DiffersIn (front ++ object ++ memberChars (keys.length + 1) last) []
              (',' :: memberChars (keys.length + 1) (leaf, .string text))
              (lineBreak keys.length ++ '\x7d' :: rest) document changed)
      ∧ (members = [] → ∃ front rest,
        document.Surrounds keys front rest
          ∧ DiffersIn front ['\x7b', '\x7d'] (chars keys.length (.object [(leaf, .string text)]))
            rest document changed) := by
  obtain ⟨root, hroot, rfl⟩ := putString_eq_ok_iff.mp h
  obtain ⟨members, hobject, rfl⟩ := Json.putString_eq_ok_iff.mp hroot
  obtain ⟨front, rest, haround⟩ := exists_surrounds hobject
  have hdiffers := haround.differsIn hobject (.object (assign leaf (.string text) members))
  refine ⟨members, hobject, fun old hold => ?_, fun hnone others last hlast => ?_, ?_⟩
  · -- the value of the member is what is replaced
    have hvalue : document.root.valueAt (keys ++ [leaf]) = some old := by
      simp [valueAt_append, hobject, hold]
    obtain ⟨front, rest, haround⟩ := exists_surrounds_member hvalue
    refine ⟨front, rest, haround, ?_⟩
    have hdiffers := haround.differsIn hvalue (.string text)
    rw [replaceAt_append hobject, replaceAt_object, adjust_of_lookup hold, replaceAt_nil]
      at hdiffers
    simpa [chars] using hdiffers
  · -- both objects have the same text up to the last member, and from the line break behind it
    obtain ⟨object, hbefore, hafter⟩ := exists_before_last keys.length others last
    have hassign : assign leaf (.string text) members =
        others ++ [last] ++ [(leaf, .string text)] := by
      rw [assign_of_notMem (lookup_eq_none_iff.mp hnone), hlast]
    refine ⟨front, object, rest, haround, by rw [hlast, hbefore], ?_⟩
    rw [hassign] at hdiffers ⊢
    rw [hlast] at hdiffers
    refine differsIn_of_render rfl ?_ ?_
    · rw [hdiffers.before, hbefore]
      simp
    · rw [hdiffers.after, hafter]
      simp
  · rintro rfl
    exact ⟨front, rest, haround, hdiffers⟩

/-- A document with a member of several lines. -/
def nestedDocument : Document where
  path := "feed.json"
  root := .object
    [("a", .object [("b", .array [.null, .object [("c", .boolean true)]]), ("d", .string "b")])]
  endsInLineBreak := true

theorem render_putString_sample :
    (∃ changed, nestedDocument.putString ["a"] "b" "\"é\n" = .ok changed
      ∧ ∃ front rest, DiffersIn front
        (chars 2 (.array [.null, .object [("c", .boolean true)]])) (quoted "\"é\n") rest
        nestedDocument changed)
      ∧ ∃ changed, nestedDocument.putString ["a"] "e" "f" = .ok changed
        ∧ ∃ front rest, DiffersIn (front ++ memberChars 2 ("d", .string "b")) []
          (',' :: memberChars 2 ("e", .string "f")) (lineBreak 1 ++ '\x7d' :: rest)
          nestedDocument changed := by
  constructor
  · obtain ⟨changed, hedit⟩ : ∃ changed, nestedDocument.putString ["a"] "b" "\"é\n" = .ok changed :=
      ⟨_, rfl⟩
    obtain ⟨members, hobject, hthere, -⟩ := render_putString hedit
    obtain rfl := Json.object.inj (Option.some.inj hobject)
    obtain ⟨front, rest, -, hdiffers⟩ := hthere _ rfl
    exact ⟨changed, hedit, _, rest, hdiffers⟩
  · obtain ⟨changed, hedit⟩ : ∃ changed, nestedDocument.putString ["a"] "e" "f" = .ok changed :=
      ⟨_, rfl⟩
    obtain ⟨members, hobject, -, hnew, -⟩ := render_putString hedit
    obtain rfl := Json.object.inj (Option.some.inj hobject)
    obtain ⟨front, object, rest, -, -, hdiffers⟩ := hnew rfl [_] _ rfl
    exact ⟨changed, hedit, front ++ object, rest, hdiffers⟩

end UpdateFeed.Document
