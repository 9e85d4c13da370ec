import UpdateFeed.Document
import UpdateFeed.Proofs.FileTree.Replacing

/-!
# Documents and their files

- `path_of_ofFile`: a document belongs to the path it was read from.
- `save_eq_ok_iff`, `replaces_of_save`: saving a document replaces the file at its path by its
  text.
-/

namespace UpdateFeed.Document

/-- A document belongs to the path it was read from. -/
theorem path_of_ofFile {files : FileSystem} {path : String} {document : Document}
    (h : ofFile files path = .ok document) : document.path = path := by
  unfold ofFile ofText at h
  split at h
  · split at h
    · obtain rfl := Except.ok.inj h
      rfl
    · simp at h
  · simp at h

/-- A document is saved when its text can be written to its path. -/
theorem save_eq_ok_iff {document : Document} {before after : FileSystem} :
    document.save before = .ok after ↔
      before.replaceText document.path document.render = .ok after := by
  unfold save
  split <;> simp_all

/-- A document that is saved replaces the file at its path. -/
theorem replaces_of_save {document : Document} {before after : FileSystem}
    (h : document.save before = .ok after) :
    FileSystem.Replaces document.path document.render before after :=
  FileSystem.replaces_of_replaceText (save_eq_ok_iff.mp h)

end UpdateFeed.Document
