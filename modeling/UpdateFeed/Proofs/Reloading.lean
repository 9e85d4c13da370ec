import UpdateFeed.Proofs.Document
import UpdateFeed.Proofs.FileTree.Agreement
import UpdateFeed.Proofs.Json.NumberText
import UpdateFeed.Proofs.Json.Reading

/-!
# Documents that are written and loaded again

A document whose numbers are whole ones is loaded from its own text as the same document: the same
values, keys in the same order, the same characters in strings, and the same end of the file.  Edits
do not change that, since they only bring in strings.

- `formed_of_ofText`, `formed_putStrings`: the form of documents that were loaded and edited.
- `ofText_render`: a document is loaded from its own text, with its numbers as they are read.
- `IsWhole.ofText_render`: with whole numbers that is the document itself.
- `ofFile_of_save`: what was saved is loaded wherever a path leads to it.
- `reload_edited`: an edited document with whole numbers is loaded as it is.
-/

namespace UpdateFeed

open Json

/-- The text that was put into a file is read from it. -/
theorem FileSystem.readText_of_holdingAt {files : FileSystem} {path text : String}
    {place : Address} (hlocate : files.locate path = .ok place)
    (hplace : files.tree.holdingAt place = some (.file text.toUTF8)) :
    files.readText path = .ok text := by
  rw [readText_eq_ok_iff, readBytes_eq, hlocate]
  dsimp only
  rw [hplace]

namespace Document

/-! ## §1 Documents that were loaded and edited -/

/-- Writes strings below keys, one after the other. -/
def putStrings (document : Document) (edits : List (List String × String × String)) :
    Except DocumentFault Document :=
  edits.foldlM (fun document edit => document.putString edit.1 edit.2.1 edit.2.2) document

variable {path content : String} {document edited : Document} {holds : Number → Prop}

/-- What a text is loaded as: its value, and how it ends. -/
theorem ofText_eq_ok_iff : ofText path content = .ok document ↔
    ∃ root, read content.toList = .ok root
      ∧ document = ⟨path, root, content.toList.getLast? = some '\n'⟩ := by
  unfold ofText parse
  cases read content.toList with
  | ok root =>
    show Except.ok _ = .ok document ↔ _
    simp [eq_comm]
  | error failure =>
    show Except.error _ = .ok document ↔ _
    simp

/-- A document that was loaded nests as deep as is allowed, and its numbers fit. -/
theorem formed_of_ofText (h : ofText path content = .ok document) :
    Formed Number.Fits depthLimit document.root := by
  obtain ⟨root, hread, rfl⟩ := ofText_eq_ok_iff.mp h
  exact formed_of_read hread

/-- Edits keep the path, the form, and the end of the file. -/
theorem putStrings_spec {edits : List (List String × String × String)}
    (h : Formed holds depthLimit document.root) (hedits : document.putStrings edits = .ok edited) :
    edited.path = document.path ∧ edited.endsInLineBreak = document.endsInLineBreak
      ∧ Formed holds depthLimit edited.root := by
  induction edits generalizing document with
  | nil =>
    obtain rfl := Except.ok.inj hedits
    exact ⟨rfl, rfl, h⟩
  | cons edit edits ih =>
    obtain ⟨between, hedit, hothers⟩ := exists_of_bind_eq_ok hedits
    obtain ⟨root, hroot, rfl⟩ := putString_eq_ok_iff.mp hedit
    exact @ih { document with root } (formed_putString h hroot) hothers

/-! ## §2 Loading what was written -/

/-- The characters of a document as it stands in its file. -/
theorem toList_render (document : Document) : document.render.toList =
    chars 0 document.root ++ if document.endsInLineBreak then ['\n'] else [] := by
  unfold render Json.render
  split <;> simp

/-- A document is loaded from its own text, with its numbers as they are read. -/
theorem ofText_render {change : Number → Number} (h : Formed holds depthLimit document.root)
    (hnumbers : ∀ number, holds number → number.literal.value = .ok (change number)) :
    ofText document.path document.render =
      .ok { document with root := document.root.mapNumbers change } := by
  rw [ofText_eq_ok_iff]
  refine ⟨document.root.mapNumbers change, ?_, ?_⟩
  · rw [toList_render]
    refine read_chars h hnumbers fun c hc => ?_
    split at hc
    · rw [List.mem_singleton.mp hc]
      rfl
    · simp at hc
  · rw [toList_render]
    cases hends : document.endsInLineBreak with
    | true => simp
    | false => simp [getLast?_chars]

/-- Whether a document has the form of one that was loaded, with whole numbers only. -/
def IsWhole (document : Document) : Prop :=
  Formed (fun number => number.Fits ∧ ∃ value, number = .integer value) depthLimit document.root

/-- A document with whole numbers is loaded from its own text as it is. -/
theorem IsWhole.ofText_render (h : document.IsWhole) :
    ofText document.path document.render = .ok document := by
  have hvalue : ∀ number : Number, (number.Fits ∧ ∃ value, number = .integer value) →
      number.literal.value = .ok (id number) := by
    rintro number ⟨hfits, value, rfl⟩
    exact value_integer hfits
  have hsame : document.root.mapNumbers id = document.root :=
    mapNumbers_eq_self h fun _ _ => rfl
  rw [Document.ofText_render h hvalue, hsame]

/-- What was saved is loaded from every path that leads to its place. -/
theorem ofFile_of_save {before after : FileSystem} (hsave : document.save before = .ok after) :
    ∃ place, before.destination document.path = .ok place ∧ ∀ path, after.locate path = .ok place →
      ofFile after path = ofText path document.render := by
  obtain ⟨place, hplace, hwritten, -, -⟩ := replaces_of_save hsave
  refine ⟨place, hplace, fun path hpath => ?_⟩
  unfold ofFile
  rw [FileSystem.readText_of_holdingAt hpath hwritten]

/-- A document that was loaded with whole numbers and then edited is loaded again from its own text,
and from the place where it was saved. -/
theorem reload_edited {edits : List (List String × String × String)}
    (hload : ofText path content = .ok document)
    (hnumbers : ∀ number ∈ document.root.numbers, ∃ value, number = .integer value)
    (hedits : document.putStrings edits = .ok edited) :
    ofText path edited.render = .ok edited
      ∧ (ofText path edited.render).map render = .ok edited.render
      ∧ ∀ before after, edited.save before = .ok after →
        ∃ place, before.destination path = .ok place ∧ ∀ other, after.locate other = .ok place →
          ofFile after other = .ok { edited with path := other } := by
  -- edits bring in no numbers, so those of the edited document are whole and fit
  have hform := (formed_of_ofText hload).of_numbers hnumbers
  obtain ⟨hpath, -, hedited⟩ := putStrings_spec hform hedits
  obtain rfl : document.path = path := by
    obtain ⟨root, -, rfl⟩ := ofText_eq_ok_iff.mp hload
    rfl
  have hvalue : ∀ number : Number, (number.Fits ∧ ∃ value, number = .integer value) →
      number.literal.value = .ok (id number) := by
    rintro number ⟨hfits, value, rfl⟩
    exact value_integer hfits
  have hsame : edited.root.mapNumbers id = edited.root :=
    mapNumbers_eq_self hedited fun _ _ => rfl
  have hreload : ∀ other, ofText other edited.render = .ok { edited with path := other } := by
    intro other
    have hform : Formed _ depthLimit ({ edited with path := other } : Document).root := hedited
    have htext := ofText_render hform hvalue
    rwa [hsame] at htext
  have hown := hreload document.path
  rw [← hpath] at hown ⊢
  refine ⟨hown, ?_, ?_⟩
  · rw [hown]
    rfl
  · intro before after hsave
    obtain ⟨place, hplace, hloads⟩ := ofFile_of_save hsave
    exact ⟨place, hplace, fun other hother => (hloads other hother).trans (hreload other)⟩

/-- A document with the least and the greatest whole number, and with an empty object. -/
def sampleDocument : Document where
  path := "feed.json"
  root := .object
    [("limits", .array [.number (.integer (-9223372036854775808)),
        .number (.integer 18446744073709551615)]),
      ("é\t", .object [])]
  endsInLineBreak := true

/-- The text that the document is loaded from. -/
def sampleContent : String :=
  "\x7b\"limits\":[-9223372036854775808,18446744073709551615],\"é\\t\":\x7b\x7d\x7d\n"

/-- Edits with quotes, backslashes, control characters and others beyond 16 bits. -/
def sampleEdits : List (List String × String × String) :=
  [(["é\t"], "\"\\", "\x00\n"), ([], "sign", "𝄞")]

theorem reload_edited_sample :
    ofText "feed.json" sampleContent = .ok sampleDocument
      ∧ (∀ number ∈ sampleDocument.root.numbers, ∃ value, number = .integer value)
      ∧ ∃ edited, sampleDocument.putStrings sampleEdits = .ok edited
        ∧ edited.root.valueAt ["é\t", "\"\\"] = some (.string "\x00\n")
        ∧ ofText "feed.json" edited.render = .ok edited := by
  have hload : ofText "feed.json" sampleContent = .ok sampleDocument := by rfl
  have hnumbers : ∀ number ∈ sampleDocument.root.numbers, ∃ value, number = .integer value := by
    intro number hnumber
    have hall : number = .integer (-9223372036854775808)
        ∨ number = .integer 18446744073709551615 := by
      simpa [sampleDocument, numbers, itemsNumbers, membersNumbers] using hnumber
    rcases hall with rfl | rfl
    · exact ⟨_, rfl⟩
    · exact ⟨_, rfl⟩
  obtain ⟨edited, hvalue, hedits⟩ : ∃ edited : Document,
      edited.root.valueAt ["é\t", "\"\\"] = some (.string "\x00\n")
        ∧ sampleDocument.putStrings sampleEdits = .ok edited := ⟨_, rfl, rfl⟩
  exact ⟨hload, hnumbers, edited, hedits, hvalue, (reload_edited hload hnumbers hedits).1⟩

end Document

end UpdateFeed
