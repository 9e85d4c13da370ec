import UpdateFeed.Proofs.FileTree.Outline
import UpdateFeed.Proofs.FileTree.Saving

/-!
# File systems that agree on what is read

Two file systems agree on some paths when they have the same outline and the files at these paths
hold the same.  A text that is written to a path of its own takes that path out of the agreement,
and nothing else.

- `Agree.readText`: what is read at a path of the agreement is the same.
- `Agree.replaceText`: a written text leaves the agreement on all paths that lead elsewhere.
-/

namespace UpdateFeed.FileSystem

/-- What a path gives to be read depends on where it leads, and on what is held there. -/
theorem readBytes_eq (files : FileSystem) (path : String) :
    files.readBytes path =
      match files.locate path with
      | .error fault => .error fault
      | .ok place =>
        match files.tree.holdingAt place with
        | none => .error .notFound
        | some (.file content) => .ok content
        | some _ => .error .isADirectory := by
  unfold readBytes node? Node.holdingAt
  cases files.locate path with
  | error fault => rfl
  | ok place =>
    cases hat : files.tree.at? place with
    | none => simp [hat]
    | some node => cases node <;> simp [hat, Node.holding]

theorem readBytes_eq_ok_iff {files : FileSystem} {path : String} {content : ByteArray} :
    files.readBytes path = .ok content ↔ files.node? path = .ok (.file content) := by
  unfold readBytes
  cases files.node? path with
  | error fault => simp
  | ok node => cases node <;> simp

/-- The text of a file is the one whose bytes the file has. -/
theorem readText_eq_ok_iff {files : FileSystem} {path text : String} :
    files.readText path = .ok text ↔ files.readBytes path = .ok text.toUTF8 := by
  unfold readText
  cases files.readBytes path with
  | error fault => simp
  | ok content =>
    dsimp only
    unfold String.fromUTF8?
    constructor
    · intro hread
      split_ifs at hread with hvalid
      · obtain rfl := Except.ok.inj hread
        rfl
      · cases hread
    · intro hcontent
      obtain rfl := Except.ok.inj hcontent
      have hvalid : text.toUTF8.IsValidUTF8 := text.isValidUTF8
      rw [dif_pos hvalid]
      rfl

/-- The node that a path leads to is at the place that the path leads to. -/
theorem at?_of_node? {files : FileSystem} {path : String} {place : Address} {node : Node}
    (h : files.node? path = .ok node) (hlocate : files.locate path = .ok place) :
    files.tree.at? place = some node := by
  unfold node? at h
  rw [hlocate] at h
  cases hat : files.tree.at? place with
  | none => simp [hat] at h
  | some found => simpa [hat] using h

/-- File systems with the same outline whose files at some paths hold the same. -/
structure Agree (reads : String → Prop) (first second : FileSystem) : Prop where
  outline : second.outlined = first.outlined
  content : ∀ path, reads path → second.readBytes path = first.readBytes path

namespace Agree

variable {reads : String → Prop} {first second : FileSystem}

theorem refl (reads : String → Prop) (files : FileSystem) : Agree reads files files :=
  ⟨rfl, fun _ _ => rfl⟩

theorem mono {fewer : String → Prop} (h : Agree reads first second)
    (hfewer : ∀ path, fewer path → reads path) : Agree fewer first second :=
  ⟨h.outline, fun path hpath => h.content path (hfewer path hpath)⟩

theorem locate (h : Agree reads first second) (path : String) :
    second.locate path = first.locate path := by
  rw [← locate_outlined, h.outline, locate_outlined]

theorem destination (h : Agree reads first second) (path : String) :
    second.destination path = first.destination path := by
  rw [← destination_outlined, h.outline, destination_outlined]

theorem readText (h : Agree reads first second) {path : String} (hpath : reads path) :
    second.readText path = first.readText path := by
  unfold FileSystem.readText
  rw [h.content path hpath]

/-- A path that leads to a file in one of them leads to a file in the other one. -/
theorem exists_file (h : Agree reads first second) {path : String} {content : ByteArray}
    (hfile : first.node? path = .ok (.file content)) :
    ∃ other, second.node? path = .ok (.file other) := by
  have hnode : (second.node? path).map Node.outline = (first.node? path).map Node.outline := by
    rw [← node?_outlined, h.outline, node?_outlined]
  rw [hfile] at hnode
  cases hsecond : second.node? path with
  | error fault =>
    rw [hsecond] at hnode
    cases hnode
  | ok node =>
    rw [hsecond] at hnode
    cases node with
    | file other => exact ⟨other, rfl⟩
    | directory entries => simp [Except.map] at hnode
    | link target => simp [Except.map] at hnode

/-- A path to a file that is no link can be written, and the agreement is left on the paths that
lead elsewhere. -/
theorem replaceText (h : Agree reads first second) {path : String} {place : Address}
    {content : ByteArray} (hfile : first.node? path = .ok (.file content))
    (hlocate : first.locate path = .ok place) (hplace : first.destination path = .ok place)
    (text : String) :
    ∃ after, second.replaceText path text = .ok after
      ∧ Agree (fun other => reads other ∧ first.locate other ≠ .ok place) first after := by
  obtain ⟨other, hother⟩ := h.exists_file hfile
  obtain ⟨written, hwritten, hreplace⟩ := exists_replaceText hother
  obtain rfl : written = place := by
    rw [h.destination, hplace] at hwritten
    exact (Except.ok.inj hwritten).symm
  have hat : second.tree.at? written = some (.file other) :=
    at?_of_node? hother ((h.locate path).trans hlocate)
  have houtline : ({ second with
      tree := second.tree.put written (.file text.toUTF8) } : FileSystem).outlined =
        first.outlined := by
    rw [← h.outline]
    unfold outlined
    rw [Node.outline_put hat]
  refine ⟨_, hreplace text, houtline, ?_⟩
  rintro path ⟨hreads, helsewhere⟩
  -- the path leads where it did, which is another place than the written one
  have hafter : Agree (fun _ => False) first
      { second with tree := second.tree.put written (.file text.toUTF8) } :=
    ⟨houtline, fun _ hnone => hnone.elim⟩
  rw [← h.content path hreads, readBytes_eq, readBytes_eq, hafter.locate, h.locate]
  cases hother : first.locate path with
  | error fault => rfl
  | ok address =>
    have hne : address ≠ written := fun heq => helsewhere (heq ▸ hother)
    dsimp only
    rw [Node.holdingAt_put_of_ne hne fun entries hentries => by cases hat.symm.trans hentries]

end Agree

end UpdateFeed.FileSystem
