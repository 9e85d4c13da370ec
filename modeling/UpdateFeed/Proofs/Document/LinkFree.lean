import UpdateFeed.Proofs.FileTree.Listing
import UpdateFeed.Proofs.Json.Descent
import UpdateFeed.Proofs.Reloading

/-!
# Documents in trees without links

In a tree without links a path leads to the place where a move onto it goes.  So a document is saved
where it was loaded from, and every path that leads there gives what was saved.

- `Node.IsLinkFree`: trees without links.
- `ofFile_of_locate`: documents by different paths to one file.
- `exists_save`: saving a document where it was loaded from.
- `putString_of_rewritten`: strings elsewhere do not change whether a place can be edited.
-/

namespace UpdateFeed

/-! ## §1 Trees without links -/

/-- Whether there is no link in a tree. -/
def Node.IsLinkFree (tree : Node) : Prop :=
  ∀ address target, tree.at? address ≠ some (.link target)

theorem Node.isLinkFree_of_isOrdinary {tree : Node} (h : tree.isOrdinary) : tree.IsLinkFree := by
  intro address target hat
  have hlink := (isOrdinary_of_at? h hat).2
  simp [isOrdinary] at hlink

/-- Whether there are links is seen from the outline. -/
theorem Node.IsLinkFree.of_outline {tree other : Node} (h : tree.IsLinkFree)
    (houtline : other.outline = tree.outline) : other.IsLinkFree := by
  intro address target hat
  have hsame : (tree.at? address).map outline = (other.at? address).map outline := by
    rw [← at?_outline, ← at?_outline, houtline]
  rw [hat] at hsame
  obtain ⟨node, hnode, hlink⟩ := Option.map_eq_some_iff.mp hsame
  cases node with
  | file content => simp at hlink
  | directory entries => simp at hlink
  | link other => exact h address other hnode

/-! ## §2 Documents of such trees -/

namespace Document

variable {files : FileSystem} {path other : String} {document : Document} {after : Json}
  {keys : List String} {texts : Json.Texts}

/-- Paths to one file give the same document, but for its path. -/
theorem ofFile_of_locate (h : files.locate other = files.locate path)
    (hload : ofFile files path = .ok document) :
    ofFile files other = .ok { document with path := other } := by
  have hread : files.readText other = files.readText path := by
    unfold FileSystem.readText
    rw [FileSystem.readBytes_eq, FileSystem.readBytes_eq, h]
  unfold ofFile at hload ⊢
  rw [hread]
  cases hcontent : files.readText path with
  | error fault => simp [hcontent] at hload
  | ok content =>
    rw [hcontent] at hload
    obtain ⟨root, hroot, rfl⟩ := ofText_eq_ok_iff.mp hload
    exact ofText_eq_ok_iff.mpr ⟨root, hroot, rfl⟩

/-- A document was loaded from a file. -/
theorem exists_file_of_ofFile (h : ofFile files path = .ok document) :
    ∃ address content, files.locate path = .ok address
      ∧ files.node? path = .ok (.file content) := by
  unfold ofFile at h
  split at h
  · rename_i text hread
    have hnode := FileSystem.readBytes_eq_ok_iff.mp (FileSystem.readText_eq_ok_iff.mp hread)
    cases hlocate : files.locate path with
    | error fault => simp [FileSystem.node?, hlocate] at hnode
    | ok address => exact ⟨address, _, rfl, hnode⟩
  · cases h

/-- Strings that were written neither on the way to a place nor above it do not change whether the
place can be edited, nor the fault if it cannot. -/
theorem putString_of_rewritten (h : Json.Rewritten texts document.root after)
    (apart : ∀ place text, (place, text) ∈ texts → ¬ place <+: keys) (leaf text : String) :
    (∃ fault, document.putString keys leaf text = .error fault
        ∧ { document with root := after }.putString keys leaf text = .error fault)
      ∨ ∃ edited changed, document.root.putString leaf text keys = .ok edited
        ∧ after.putString leaf text keys = .ok changed := by
  unfold putString
  rw [Json.putString_eq, Json.putString_eq]
  cases hobject : Json.objectAt keys document.root with
  | error fault =>
    rw [(h.objectAt_eq_error_iff apart).mpr hobject]
    exact .inl ⟨_, rfl, rfl⟩
  | ok members =>
    cases hfault : Json.objectAt keys after with
    | error fault => cases ((h.objectAt_eq_error_iff apart).mp hfault).symm.trans hobject
    | ok members => exact .inr ⟨_, _, rfl, rfl⟩

/-- In a tree without links a document can be saved where it was loaded from, and no other file
changes. -/
theorem exists_save (document : Document) (hlinks : files.tree.IsLinkFree) {content : ByteArray}
    (hfile : files.node? document.path = .ok (.file content)) :
    ∃ address after, files.locate document.path = .ok address
      ∧ document.save files = .ok after
      ∧ FileSystem.Agree (fun other => files.locate other ≠ .ok address) files after
      ∧ (∀ place, place ≠ address → after.tree.holdingAt place = files.tree.holdingAt place)
      ∧ ∀ other, files.locate other = .ok address →
        ofFile after other = ofText other document.render := by
  obtain ⟨address, hplace, hreplace⟩ := FileSystem.exists_replaceText hfile
  have hlocate := FileSystem.locate_of_destination hfile hplace (hlinks address)
  obtain ⟨after, hafter, hagree⟩ := (FileSystem.Agree.refl (fun _ => True) files).replaceText
    hfile hlocate hplace document.render
  have hsave : document.save files = .ok after := save_eq_ok_iff.mpr hafter
  obtain ⟨written, hwritten, -, helsewhere, -⟩ := replaces_of_save hsave
  obtain rfl := Except.ok.inj (hplace.symm.trans hwritten)
  obtain ⟨reached, hreached, hloads⟩ := ofFile_of_save hsave
  obtain rfl := Except.ok.inj (hplace.symm.trans hreached)
  exact ⟨address, after, hlocate, hsave, hagree.mono fun other hother => ⟨trivial, hother⟩,
    helsewhere, fun other hother => hloads other ((hagree.locate other).trans hother)⟩

end Document

end UpdateFeed
